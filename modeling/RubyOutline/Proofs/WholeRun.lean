import Mathlib
import RubyOutline.Proofs.CollectedPaths
import RubyOutline.Proofs.FileRun
import RubyOutline.Run.Basic

namespace RubyOutline

/-- What is found in a file by itself; nothing if it cannot be read, parsed or lowered. -/
def Source.found (fs : FileSystem) (parser : Parser) (path : String) : Option Extraction :=
  (load fs parser path).toOption.map fun (_, node) => extract path (.node node)

namespace Report

/-- Files from which the same can be gathered file by file, with nothing to be gathered from a file
without features. -/
def SameContent (files files' : List (String × List Feature)) : Prop :=
  ∀ (β : Type) (gather : String × List Feature → List β), (∀ path, gather (path, []) = []) →
    files.flatMap gather = files'.flatMap gather

variable {files files' : List (String × List Feature)}

theorem SameContent.map (h : SameContent files files')
    {shown : String × List Feature → String × List Feature}
    (hshown : ∀ path, shown (path, []) = (path, [])) :
    SameContent (files.map shown) (files'.map shown) := by
  intro β gather hnil
  rw [List.flatMap_map, List.flatMap_map]
  exact h β _ fun path => by rw [hshown, hnil]

theorem SameContent.short_eq (h : SameContent files files') (p : Palette) :
    short p files = short p files' := by
  have hshort (files : List (String × List Feature)) : short p files =
      ⟨(files.flatMap fun file => file.2).length,
        joinLines (if (files.flatMap fun file => file.2).length = 0 then ["No features found"]
          else files.flatMap fun file => sectionLines p file.1 file.2)⟩ := rfl
  rw [hshort, hshort, h Feature _ fun _ => rfl, h String _ fun _ => rfl]

theorem SameContent.json_eq (h : SameContent files files') :
    json (files.flatMap fun file => file.2) = json (files'.flatMap fun file => file.2) := by
  rw [h Feature _ fun _ => rfl]

/-- A report shows of its files only what can be gathered from them. -/
theorem SameContent.make_eq (h : SameContent files files') (p : Palette) (mode : Mode)
    (publicOnly : Bool) : make p mode publicOnly files = make p mode publicOnly files' := by
  cases mode with
  | short => exact (h.map fun path => by cases publicOnly <;> rfl).short_eq p
  | json => exact (h.map fun path => by cases publicOnly <;> rfl).json_eq

/-- The report on files of which some have failed is the report on the others. -/
theorem make_found (palette : Palette) (mode : Mode) (publicOnly : Bool)
    (found : String → Option (List Feature)) (paths : List String) :
    make palette mode publicOnly (paths.map fun path => (path, (found path).getD [])) =
      make palette mode publicOnly
        (paths.filterMap fun path => (found path).map fun features => (path, features)) := by
  refine SameContent.make_eq (fun β gather hnil => ?_) palette mode publicOnly
  -- a file that has failed is in the first list without features, and not in the second
  induction paths with
  | nil => rfl
  | cons path rest ih =>
    cases hpath : found path with
    | none => simpa [hpath, hnil] using ih
    | some features => simpa [hpath] using ih

end Report

namespace Source

variable {fs : FileSystem} {parser : Parser} {path text : String}

theorem found_of_unread {e : SourceError} (h : fs.readText path = .error e) :
    found fs parser path = none := by
  rw [found, load, h]
  rfl

theorem found_of_unparsed {e : SourceError} (h : fs.readText path = .ok text)
    (hparse : parse parser text = .error e) : found fs parser path = none := by
  simp only [found, load, h, hparse, bind, Except.bind]
  rfl

theorem found_of_parsed {node : Node} (h : fs.readText path = .ok text)
    (hparse : parse parser text = .ok node) :
    found fs parser path = some (extract path (.node node)) := by
  simp only [found, load, h, hparse, bind, Except.bind]
  rfl

end Source

/-- The first run of a file comes to what is found in it by itself, and marks it if it fails. -/
theorem SourceFile.run_fresh (fs : FileSystem) (parser : Parser) {path : String}
    (h : Path.hasNull path = false) {f : SourceFile}
    (hf : f = (({ path } : SourceFile).run fs parser).1) :
    f.path = path ∧
      f.features = ((Source.found fs parser path).map Extraction.features).getD [] ∧
      f.diagnostics = ((Source.found fs parser path).map Extraction.diagnostics).getD [] ∧
      f.failed = (Source.found fs parser path).isNone := by
  have hruns := run_runsTo fs parser { path }
  rw [← hf] at hruns
  cases hruns with
  | refused e hrefusal =>
    rw [refusal?_fresh h] at hrefusal
    cases hrefusal
  | unread e _ _ hread =>
    rw [Source.found_of_unread hread]
    exact ⟨rfl, rfl, rfl, rfl⟩
  | unparsed text e _ htext hparse =>
    rw [Source.found_of_unparsed htext hparse]
    exact ⟨rfl, rfl, rfl, rfl⟩
  | parsed text node _ htext hparse =>
    rw [Source.found_of_parsed htext hparse]
    exact ⟨rfl, rfl, rfl, rfl⟩

namespace Project

variable {fs : FileSystem} {parser : Parser} {paths : List String} {path : String}

theorem run_ofPaths (h : ∀ path ∈ paths, Path.hasNull path = false) :
    ((ofPaths paths).run fs parser).files =
      paths.eraseDups.map fun path => (({ path } : SourceFile).run fs parser).1 := by
  rw [run_files (refusal?_ofPaths h), ofPaths, List.map_map]
  rfl

theorem report_run_ofPaths (h : ∀ path ∈ paths, Path.hasNull path = false) (palette : Palette)
    (mode : Report.Mode) (publicOnly : Bool) :
    ((ofPaths paths).run fs parser).report palette mode publicOnly =
      Report.make palette mode publicOnly (paths.eraseDups.filterMap fun path =>
        (Source.found fs parser path).map fun e => (path, e.features)) := by
  have hfiles : ((ofPaths paths).run fs parser).files.map (fun f => (f.path, f.features)) =
      paths.eraseDups.map fun path =>
        (path, ((Source.found fs parser path).map Extraction.features).getD []) := by
    rw [run_ofPaths h, List.map_map]
    refine List.map_congr_left fun path hpath => ?_
    obtain ⟨hname, hfeatures, -⟩ :=
      SourceFile.run_fresh fs parser (h path (List.mem_eraseDups.1 hpath)) rfl
    simp only [Function.comp_apply, hname, hfeatures]
  rw [report, hfiles, Report.make_found]
  simp only [Option.map_map, Function.comp_def]

/-- The first run of some files marks those that cannot be read, parsed or lowered. -/
theorem mem_failedFiles_run_ofPaths (h : ∀ path ∈ paths, Path.hasNull path = false) :
    path ∈ ((ofPaths paths).run fs parser).failedFiles ↔
      path ∈ paths ∧ Source.found fs parser path = none := by
  have hfresh (path : String) (hpath : path ∈ paths) :=
    SourceFile.run_fresh fs parser (h path hpath) rfl
  rw [failedFiles, run_ofPaths h, List.mem_map]
  constructor
  · rintro ⟨f, hf, rfl⟩
    obtain ⟨hmem, hfailed⟩ := List.mem_filter.1 hf
    obtain ⟨path, hpath, rfl⟩ := List.mem_map.1 hmem
    rw [List.mem_eraseDups] at hpath
    obtain ⟨hname, -, -, hfound⟩ := hfresh path hpath
    rw [hfound, Option.isNone_iff_eq_none] at hfailed
    rw [hname]
    exact ⟨hpath, hfailed⟩
  · rintro ⟨hpath, hnone⟩
    obtain ⟨hname, -, -, hfound⟩ := hfresh path hpath
    refine ⟨_, List.mem_filter.2 ⟨List.mem_map_of_mem (List.mem_eraseDups.2 hpath), ?_⟩, hname⟩
    rw [hfound, hnone]
    rfl

theorem failedFiles_run_ofPaths (h : ∀ path ∈ paths, Path.hasNull path = false) :
    ((ofPaths paths).run fs parser).failedFiles ≠ [] ↔
      ∃ path ∈ paths, Source.found fs parser path = none := by
  rw [Ne, List.eq_nil_iff_forall_not_mem, not_forall_not]
  apply exists_congr
  intro path
  exact mem_failedFiles_run_ofPaths h

theorem diagnostics_run_ofPaths (h : ∀ path ∈ paths, Path.hasNull path = false) :
    ((ofPaths paths).run fs parser).diagnostics ≠ [] ↔
      ∃ path ∈ paths, ∃ e, Source.found fs parser path = some e ∧ e.diagnostics ≠ [] := by
  rw [diagnostics, Ne, List.flatMap_eq_nil_iff, run_ofPaths h]
  simp only [List.forall_mem_map, List.mem_eraseDups, Classical.not_forall, exists_prop]
  refine exists_congr fun path => and_congr_right fun hpath => ?_
  rw [(SourceFile.run_fresh fs parser (h path hpath) rfl).2.2.1]
  cases Source.found fs parser path <;> simp

end Project

namespace Run

variable {w : World} {o : Options}

/-- The directory for the report is there or can be made, and the report can be put into it. -/
def CanSave (fs : FileSystem) (o : Options) : Prop :=
  ∀ directory, reportDirectory? o = some directory →
    ∃ made place, fs.ensureDirectories directory = (made, none) ∧
      made.HasPlaceFor (reportPath o directory) place

theorem pieces_reportPath (o : Options) (directory : String) :
    ∃ names last, Path.pieces (reportPath o directory) = names ++ [last] ∧ last ≠ "" := by
  unfold reportPath
  cases o.mode with
  | short =>
    have hname : ("FEATURES-" ++ Path.lastName o.inputPath ++ ".txt").toList =
        ("FEATURES-" ++ Path.lastName o.inputPath ++ ".tx").toList ++ ['t'] := by simp
    exact Path.pieces_join directory hname (by decide)
  | json =>
    have hname : ("FEATURES-" ++ Path.lastName o.inputPath ++ ".json").toList =
        ("FEATURES-" ++ Path.lastName o.inputPath ++ ".jso").toList ++ ['n'] := by simp
    exact Path.pieces_join directory hname (by decide)

/-- What is saved is the text of the report. -/
theorem save_ok {fs : FileSystem} (h : CanSave fs o) (text : String) :
    ∃ files log, save fs o text = (files, .ok log) ∧
      ∀ directory, reportDirectory? o = some directory →
        files.read (reportPath o directory) = .ok (Utf8.encode text) := by
  cases hdirectory : reportDirectory? o with
  | none => exact ⟨fs, [], by simp [save, hdirectory], nofun⟩
  | some directory =>
    obtain ⟨made, place, hmade, hplace⟩ := h directory hdirectory
    obtain ⟨names, last, hpieces, hlast⟩ := pieces_reportPath o directory
    refine ⟨made.withFile place (Utf8.encode text),
      [Log.info ("Writing results to: " ++ reportPath o directory)], ?_, ?_⟩
    · simp only [save, hdirectory, hmade, hplace.write_eq]
    · rintro _ ⟨⟩
      exact FileSystem.read_withFile _ hpieces hlast hplace

theorem verdict_cases (o : Options) (p : Project) :
    ((verdict o p).1 = 0 ∨ (verdict o p).1 = 1) ∧
      ((verdict o p).1 = 1 ↔ p.failedFiles ≠ [] ∨ o.strict = true ∧ p.diagnostics ≠ []) := by
  unfold verdict
  cases hfailed : p.failedFiles with
  | cons => simp
  | nil => cases hstrict : o.strict <;> cases hdiagnostics : p.diagnostics <;> simp

/-- If no file is refused and the report can be saved, it is printed and saved. -/
theorem extractFiles_ok {paths : List String} (hnull : ∀ path ∈ paths, Path.hasNull path = false)
    (hsave : CanSave w.files o) {p : Project}
    (hp : p = (Project.ofPaths paths).run w.files w.parser) :
    (extractFiles w o paths {}).stdout = (p.report w.palette o.mode o.publicOnly).text ∧
      (extractFiles w o paths {}).ending = .exit (verdict o p).1 ∧
      ∀ directory, reportDirectory? o = some directory →
        (extractFiles w o paths {}).files.read (reportPath o directory) =
          .ok (Utf8.encode (p.report w.palette o.mode o.publicOnly).text) := by
  obtain ⟨files, log, hsaved, hread⟩ :=
    save_ok hsave (p.report w.palette o.mode o.publicOnly).text
  simp only [extractFiles, Project.refusal?_ofPaths hnull, ← hp, hsaved]
  exact ⟨String.empty_append, trivial, hread⟩

/-- A run without a dump and without a parser check. -/
theorem withOptions_of_collect {paths : List String} (hdump : o.dumpAst = false)
    (hcheck : o.checkParser = false) (h : Collection.collect w.files o.inputPath = .ok paths)
    (hpaths : paths ≠ []) : withOptions w o = extractFiles w o paths {} := by
  cases paths with
  | nil => exact absurd rfl hpaths
  | cons path rest => simp only [withOptions, h, hcheck, hdump, Bool.false_eq_true, if_false]

/-- A run that cannot collect its files ends with that error, and one that finds no files ends with
status one; neither prints anything. Otherwise a run prints the report on what is found in each
collected file by itself, as if the files that fail were not there; a saved report has the same
text; and the status is one exactly if a file has failed, or if diagnostics count and a file has
some. -/
theorem run_reports_what_is_found (w : World) (o : Options) (hdump : o.dumpAst = false)
    (hcheck : o.checkParser = false)
    (hnames : ∀ name ∈ w.files.root.names, Path.hasNull name = false) (hsave : CanSave w.files o) :
    (∀ e, Collection.collect w.files o.inputPath = .error e →
      (withOptions w o).stdout = "" ∧ (withOptions w o).ending = .crash (.files e)) ∧
    (Collection.collect w.files o.inputPath = .ok [] →
      (withOptions w o).stdout = "" ∧ (withOptions w o).ending = .exit 1) ∧
    ∀ paths, Collection.collect w.files o.inputPath = .ok paths → paths ≠ [] →
      (withOptions w o).stdout =
        (Report.make w.palette o.mode o.publicOnly (paths.eraseDups.filterMap fun path =>
          (Source.found w.files w.parser path).map fun e => (path, e.features))).text ∧
      (∀ directory, reportDirectory? o = some directory →
        (withOptions w o).files.read (reportPath o directory) =
          .ok (Utf8.encode (withOptions w o).stdout)) ∧
      ∃ status, (withOptions w o).ending = .exit status ∧ (status = 0 ∨ status = 1) ∧
        (status = 1 ↔
          (∃ path ∈ paths, Source.found w.files w.parser path = none) ∨
          o.strict = true ∧ ∃ path ∈ paths, ∃ e,
            Source.found w.files w.parser path = some e ∧ e.diagnostics ≠ []) := by
  refine ⟨?_, ?_, ?_⟩
  · intro e he
    simp only [withOptions, he]
    exact ⟨rfl, rfl⟩
  · intro hnone
    simp only [withOptions, hnone]
    exact ⟨rfl, rfl⟩
  · intro paths hcollect hpaths
    have hnull := Collection.hasNull_of_mem_collect hnames hcollect
    rw [withOptions_of_collect hdump hcheck hcollect hpaths]
    obtain ⟨hstdout, hending, hread⟩ := extractFiles_ok hnull hsave rfl
    refine ⟨?_, ?_, _, hending, (verdict_cases o _).1, ?_⟩
    · rw [hstdout, Project.report_run_ofPaths hnull]
    · rw [hstdout]
      exact hread
    · rw [(verdict_cases o _).2, Project.failedFiles_run_ofPaths hnull,
        Project.diagnostics_run_ofPaths hnull]

/-- A directory of two files, of which the second is not text, and an empty directory. A text is
read as a method that is named by its first letter. -/
def mixedWorld : World where
  files := ⟨.directory [("lib", .directory [("a.rb", .file [97]), ("b.rb", .file [255])]),
    ("out", .directory [])], []⟩
  parser := fun _ =>
    let name : ParseTree := { type := "x", stop := 1, field := some "name" }
    .ok { type := "program", children := [{ type := "method", children := [name] }] }
  settings := { colours := false }

def mixedOptions : Options := { inputPath := "lib", outputDir := some "out" }

theorem collect_mixedWorld :
    Collection.collect mixedWorld.files "lib" = .ok ["lib/a.rb", "lib/b.rb"] := by
  have hlookup : mixedWorld.files.lookup "lib" =
      .ok (.directory [("a.rb", .file [97]), ("b.rb", .file [255])]) := by cbv
  have hstart : Path.tidy "lib" = "lib" := by decide +kernel
  have hbelow : (Collection.below [] [("a.rb", .file [97]), ("b.rb", .file [255])]).map
      (Path.below "lib") = ["lib/a.rb", "lib/b.rb"] := by decide +kernel
  have hsorted : Collection.sorted ["lib/a.rb", "lib/b.rb"] = ["lib/a.rb", "lib/b.rb"] :=
    List.mergeSort_of_pairwise (by decide)
  simp only [Collection.collect, hlookup, hstart, hbelow, hsorted]
  rfl

theorem canSave_mixedWorld : CanSave mixedWorld.files mixedOptions := by
  have hpath : reportPath mixedOptions "out" = "out/FEATURES-lib.txt" := by decide +kernel
  have hnull : Path.hasNull "out/FEATURES-lib.txt" = false := by simp [Path.hasNull_eq_false]
  have hfault : FileSystem.pathFault? "out/FEATURES-lib.txt" = none := by
    simp only [FileSystem.pathFault?, hnull]
    decide
  have hpieces : Path.pieces "out/FEATURES-lib.txt" = ["out", "FEATURES-lib.txt"] := by
    decide +kernel
  intro directory hdirectory
  have hout : reportDirectory? mixedOptions = some "out" := by cbv
  cases hout.symm.trans hdirectory
  refine ⟨mixedWorld.files, ["out", "FEATURES-lib.txt"], by cbv, ?_, ?_⟩
  · rw [hpath]
    simp only [FileSystem.placeFor, hfault, hpieces]
    decide +kernel
  · have hfree : mixedWorld.files.entry? ["out", "FEATURES-lib.txt"] = none := by cbv
    intro entry hentry
    rw [hfree] at hentry
    cases hentry

/-- The file that is text is reported, printed and saved alike, and the other one is what the
status tells of. -/
theorem run_reports_what_is_found_mixedWorld :
    CanSave mixedWorld.files mixedOptions ∧
    Collection.collect mixedWorld.files "lib" = .ok ["lib/a.rb", "lib/b.rb"] ∧
    (withOptions mixedWorld mixedOptions).stdout = "lib/a.rb\n  a :1\n" ∧
    (withOptions mixedWorld mixedOptions).files.read (reportPath mixedOptions "out") =
      .ok (Utf8.encode (withOptions mixedWorld mixedOptions).stdout) ∧
    (withOptions mixedWorld mixedOptions).ending = .exit 1 := by
  have hnames : ∀ name ∈ mixedWorld.files.root.names, Path.hasNull name = false := by
    simp [mixedWorld, Entry.names, Entry.namesOf, Path.hasNull_eq_false]
  obtain ⟨-, -, h⟩ := run_reports_what_is_found mixedWorld mixedOptions rfl rfl hnames
    canSave_mixedWorld
  obtain ⟨hstdout, hread, status, hending, -, hstatus⟩ := h _ collect_mixedWorld (by simp)
  have hfailed : Source.found mixedWorld.files mixedWorld.parser "lib/b.rb" = none := by cbv
  refine ⟨canSave_mixedWorld, collect_mixedWorld, ?_, hread "out" (by cbv), ?_⟩
  · rw [hstdout]
    cbv
  · rw [hending, hstatus.2 (.inl ⟨"lib/b.rb", by simp, hfailed⟩)]

def letters (n : Nat) : String := String.ofList (List.replicate n 'a')

theorem not_mem_letters {n : Nat} {c : Char} (h : c ≠ 'a') : c ∉ (letters n).toList := by
  rw [letters, String.toList_ofList]
  exact fun hc => h (List.eq_of_mem_replicate hc)

/-- There is a run that comes to no status, though it has neither a dump nor a parser check, nor a
report to be saved: a name of one letter too many ends it. -/
theorem long_name_ends_the_run :
    ¬ ∀ (w : World) (o : Options), o.dumpAst = false → o.checkParser = false →
      o.outputDir = none → (∀ name ∈ w.files.root.names, Path.hasNull name = false) →
        ∃ status, (withOptions w o).ending = .exit status := by
  intro h
  have horigin : FileSystem.entry? ⟨.directory [], []⟩
      (FileSystem.origin ⟨.directory [], []⟩ (letters 256)) = some (.directory []) := by
    simp [FileSystem.origin, FileSystem.entry?, Entry.get?]
  have hsize : (letters 256).utf8ByteSize = 256 := by decide +kernel
  have hcollect : Collection.collect ⟨.directory [], []⟩ (letters 256) =
      .error ⟨.nameTooLong, letters 256⟩ := by
    refine Collection.collect_of_long_name horigin (not_mem_letters (by decide))
      (Path.hasNull_eq_false.2 (not_mem_letters (by decide))) ?_ ?_
    · rw [hsize]
      decide
    · rw [FileSystem.isTooLong, hsize]
      decide
  obtain ⟨status, hending⟩ := h ⟨⟨.directory [], []⟩, fun _ => .error "", {}⟩
    { inputPath := letters 256 } rfl rfl rfl (by simp [Entry.names, Entry.namesOf])
  simp only [withOptions, hcollect] at hending
  cases hending

end Run

end RubyOutline
