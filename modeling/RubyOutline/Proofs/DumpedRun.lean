import RubyOutline.Proofs.WholeRun

namespace RubyOutline

/-- A file that is read and parsed, but whose parse tree is not converted to a program tree. -/
def Source.IsUnconverted (fs : FileSystem) (parser : Parser) (path : String) : Prop :=
  ∃ text t, fs.readText path = .ok text ∧ parser text = .ok t ∧ t.toNode? text = none

namespace TreeDump

variable {fs : FileSystem} {parser : Parser} {path : String} {paths : List String}

theorem ended_ofFile_iff :
    (ofFile fs parser path).ended = true ↔ Source.IsUnconverted fs parser path := by
  unfold ofFile Source.IsUnconverted
  cases hread : fs.readText path with
  | error e => simp
  | ok text =>
    cases hparse : parser text with
    | error reason => simp [Source.tree, hparse, Except.mapError]
    | ok t =>
      cases hlowered : t.toNode? text <;> simp [Source.tree, hparse, Except.mapError, hlowered]

/-- What is shown of files, one after the other. -/
def shown (fs : FileSystem) (parser : Parser) (paths : List String) : List String :=
  paths.flatMap fun path => (ofFile fs parser path).lines

/-- Files that are converted are shown, and the dump goes on. -/
theorem ofFiles_append {before : List String}
    (h : ∀ path ∈ before, ¬Source.IsUnconverted fs parser path) (rest : List String) :
    (ofFiles fs parser (before ++ rest)).ended = (ofFiles fs parser rest).ended ∧
      (ofFiles fs parser (before ++ rest)).lines =
        shown fs parser before ++ (ofFiles fs parser rest).lines := by
  induction before with
  | nil => exact ⟨rfl, rfl⟩
  | cons path before ih =>
    obtain ⟨hpath, hbefore⟩ := List.forall_mem_cons.mp h
    obtain ⟨hended, hlines⟩ := ih hbefore
    rw [← ended_ofFile_iff] at hpath
    rw [List.cons_append, ofFiles, andThen, if_neg hpath]
    refine ⟨hended, ?_⟩
    rw [hlines, shown, shown, List.flatMap_cons, List.append_assoc]

theorem ofFiles_of_converted (h : ∀ path ∈ paths, ¬Source.IsUnconverted fs parser path) :
    (ofFiles fs parser paths).ended = false ∧
      (ofFiles fs parser paths).lines = shown fs parser paths := by
  have hall := ofFiles_append h []
  rwa [List.append_nil, ofFiles, List.append_nil] at hall

/-- The first file that is not converted is the last one that is shown. -/
theorem ofFiles_of_unconverted {before : List String} (after : List String)
    (hbefore : ∀ path ∈ before, ¬Source.IsUnconverted fs parser path)
    (hpath : Source.IsUnconverted fs parser path) :
    (ofFiles fs parser (before ++ path :: after)).ended = true ∧
      (ofFiles fs parser (before ++ path :: after)).lines =
        shown fs parser (before ++ [path]) := by
  have hended := ended_ofFile_iff.mpr hpath
  obtain ⟨hsame, hlines⟩ := ofFiles_append hbefore (path :: after)
  rw [ofFiles, andThen, if_pos hended] at hsame hlines
  refine ⟨hsame.trans hended, ?_⟩
  rw [hlines, shown, shown, List.flatMap_append, List.flatMap_singleton]

end TreeDump

namespace Run

variable {w : World} {o : Options}

/-- What the dump has shown comes first in what is printed, and all else is as without it. -/
theorem extractFiles_dump (w : World) (o : Options) (paths : List String) (dump : TreeDump) :
    (extractFiles w o paths dump).ending = (extractFiles w o paths {}).ending ∧
      (extractFiles w o paths dump).files = (extractFiles w o paths {}).files ∧
      (extractFiles w o paths dump).stdout =
        joinLines dump.lines ++ (extractFiles w o paths {}).stdout := by
  have hnothing : joinLines [] = "" := rfl
  unfold extractFiles
  simp only
  split
  · exact ⟨rfl, rfl, by simp [World.ending, hnothing]⟩
  · split
    · exact ⟨rfl, rfl, by simp [World.ending, hnothing]⟩
    · exact ⟨rfl, rfl, by simp [hnothing]⟩

/-- The report is made without regard to whether trees are to be shown. -/
theorem extractFiles_dumpAst (w : World) (o : Options) (dumpAst : Bool) (paths : List String)
    (dump : TreeDump) :
    extractFiles w { o with dumpAst } paths dump = extractFiles w o paths dump := by
  simp only [extractFiles, save, reportDirectory?, reportPath, verdict]

/-- The files that a run looks at; none if they cannot be collected. -/
def collected (w : World) (o : Options) : List String :=
  (Collection.collect w.files o.inputPath).toOption.getD []

theorem collect_of_collected {paths : List String} (h : collected w o = paths)
    (hpaths : paths ≠ []) : Collection.collect w.files o.inputPath = .ok paths := by
  rw [collected] at h
  cases hcollect : Collection.collect w.files o.inputPath with
  | error e =>
    rw [hcollect] at h
    exact absurd h.symm hpaths
  | ok found =>
    rw [hcollect] at h
    exact congrArg _ h

/-- Where there is nothing to be shown, a run takes no notice of the dump. -/
theorem withOptions_of_nothing (h : collected w o = []) (dumpAst : Bool) :
    withOptions w { o with dumpAst } = withOptions w o := by
  rw [collected] at h
  unfold withOptions
  cases hcollect : Collection.collect w.files o.inputPath with
  | error e => rfl
  | ok found =>
    rw [hcollect] at h
    cases h
    rfl

/-- A run with a dump and without a parser check. -/
theorem withOptions_of_dump {paths : List String} (hcheck : o.checkParser = false)
    (h : Collection.collect w.files o.inputPath = .ok paths) (hpaths : paths ≠ []) {dump : TreeDump}
    (hdump : TreeDump.ofFiles w.files w.parser paths = dump) :
    withOptions w { o with dumpAst := true } =
      if dump.ended then w.ending (.crash .onlyComment) dump.lines dump.log
      else extractFiles w o paths dump := by
  cases paths with
  | nil => exact absurd rfl hpaths
  | cons path rest =>
    rw [← extractFiles_dumpAst w o true]
    simp only [withOptions, h, hcheck, hdump, Bool.false_eq_true, if_false, if_true]

/-- A dump only adds to what is printed: the run ends as it does without the dump, with the same
files, and prints the trees of the collected files ahead of the same text. The exception is a file
that is parsed but not converted to a program tree. The run without a dump counts it as failed and
goes on; the dump shows its parse tree and ends the run. -/
theorem dump_only_adds_output (w : World) (o : Options) (hcheck : o.checkParser = false) :
    let plain := withOptions w { o with dumpAst := false }
    let dumped := withOptions w { o with dumpAst := true }
    ((∀ path ∈ collected w o, ¬Source.IsUnconverted w.files w.parser path) →
      dumped.ending = plain.ending ∧ dumped.files = plain.files ∧
        dumped.stdout =
          joinLines (TreeDump.shown w.files w.parser (collected w o)) ++ plain.stdout) ∧
    ∀ before path after, collected w o = before ++ path :: after →
      (∀ earlier ∈ before, ¬Source.IsUnconverted w.files w.parser earlier) →
      Source.IsUnconverted w.files w.parser path →
        dumped.ending = .crash .onlyComment ∧ dumped.files = w.files ∧
          dumped.stdout = joinLines (TreeDump.shown w.files w.parser (before ++ [path])) := by
  intro plain dumped
  constructor
  · intro hconverted
    by_cases hnone : collected w o = []
    · have hsame : dumped = plain := by
        simp only [dumped, plain, withOptions_of_nothing hnone]
      rw [hsame, hnone]
      exact ⟨rfl, rfl, String.empty_append.symm⟩
    · obtain ⟨hended, hlines⟩ := TreeDump.ofFiles_of_converted hconverted
      have hcollect := collect_of_collected rfl hnone
      have hplain : plain = extractFiles w o (collected w o) {} := by
        rw [← extractFiles_dumpAst w o false]
        exact withOptions_of_collect rfl hcheck hcollect hnone
      have hdumped : dumped = extractFiles w o (collected w o)
          (TreeDump.ofFiles w.files w.parser (collected w o)) := by
        simp only [dumped, withOptions_of_dump hcheck hcollect hnone rfl, hended,
          Bool.false_eq_true, if_false]
      rw [hplain, hdumped, ← hlines]
      exact extractFiles_dump w o _ _
  · intro before path after hcollected hbefore hpath
    obtain ⟨hended, hlines⟩ := TreeDump.ofFiles_of_unconverted after hbefore hpath
    have hcollect := collect_of_collected hcollected (by simp)
    have hdumped := withOptions_of_dump hcheck hcollect (by simp) rfl
    rw [if_pos hended] at hdumped
    simp only [dumped, hdumped, ← hlines]
    exact ⟨rfl, rfl, rfl⟩

/-- A file with one line, which is read as a comment. -/
def commentWorld : World where
  files := ⟨.directory [("a.rb", .file [35, 32, 120, 10])], []⟩
  parser := fun _ => .ok { type := "comment", stop := 3 }
  settings := { colours := false }

def commentOptions : Options := { inputPath := "a.rb" }

theorem collect_commentWorld : Collection.collect commentWorld.files "a.rb" = .ok ["a.rb"] := by
  cbv

theorem collected_commentWorld : collected commentWorld commentOptions = ["a.rb"] := by
  rw [collected, commentOptions, collect_commentWorld]
  rfl

theorem isUnconverted_commentWorld :
    Source.IsUnconverted commentWorld.files commentWorld.parser "a.rb" := by
  have hread : commentWorld.files.readText "a.rb" = .ok "# x\n" := by cbv
  exact ⟨_, _, hread, rfl, rfl⟩

/-- The dump of a file that is text and of one that is not goes ahead of the report on them; that of
a comment is the last that is printed. -/
theorem dump_only_adds_output_mixedWorld :
    collected mixedWorld mixedOptions = ["lib/a.rb", "lib/b.rb"] ∧
    (let plain := withOptions mixedWorld { mixedOptions with dumpAst := false }
    let dumped := withOptions mixedWorld { mixedOptions with dumpAst := true }
    dumped.ending = plain.ending ∧ dumped.files = plain.files ∧
      dumped.stdout = joinLines (TreeDump.shown mixedWorld.files mixedWorld.parser
        ["lib/a.rb", "lib/b.rb"]) ++ plain.stdout) ∧
    let dumped := withOptions commentWorld { commentOptions with dumpAst := true }
    dumped.ending = .crash .onlyComment ∧
      dumped.stdout = joinLines ["", "=== AST for a.rb ===", "comment [0:3] '# x'", "",
        "=== Syntax tree for a.rb ==="] := by
  have hcollected : collected mixedWorld mixedOptions = ["lib/a.rb", "lib/b.rb"] := by
    rw [collected, mixedOptions, collect_mixedWorld]
    rfl
  have hconverted (path : String) :
      ¬Source.IsUnconverted mixedWorld.files mixedWorld.parser path := by
    rintro ⟨text, t, -, ht, hnone⟩
    cases ht
    cases hnone
  refine ⟨hcollected, ?_, ?_⟩
  · rw [← hcollected]
    exact (dump_only_adds_output mixedWorld mixedOptions rfl).1 fun path _ => hconverted path
  · obtain ⟨-, hcomment⟩ := dump_only_adds_output commentWorld commentOptions rfl
    obtain ⟨hending, -, hstdout⟩ := hcomment [] "a.rb" [] collected_commentWorld
      (List.forall_mem_nil _) isUnconverted_commentWorld
    refine ⟨hending, hstdout.trans (congrArg joinLines ?_)⟩
    cbv

/-- A run that ends with a status without a dump need not do so with one. -/
theorem dump_ends_at_a_comment :
    ¬∀ (w : World) (o : Options) (status : Nat), o.checkParser = false → CanSave w.files o →
      (withOptions w { o with dumpAst := false }).ending = .exit status →
      (withOptions w { o with dumpAst := true }).ending = .exit status := by
  intro h
  have hsave : CanSave commentWorld.files commentOptions := by
    intro directory hdirectory
    cases hdirectory
  have hplain : (withOptions commentWorld { commentOptions with dumpAst := false }).ending =
      .exit 1 := by
    cbv
  have hended : (TreeDump.ofFiles commentWorld.files commentWorld.parser ["a.rb"]).ended = true :=
    (TreeDump.ofFiles_of_unconverted [] (List.forall_mem_nil _) isUnconverted_commentWorld).1
  have hrun := withOptions_of_dump (w := commentWorld) (o := commentOptions) rfl
    collect_commentWorld (List.cons_ne_nil _ _) rfl
  rw [if_pos hended] at hrun
  have hdumped := h commentWorld commentOptions 1 rfl hsave hplain
  rw [hrun] at hdumped
  cases hdumped

end Run

end RubyOutline
