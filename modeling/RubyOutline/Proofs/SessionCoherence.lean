import Mathlib
import RubyOutline.Project.Session
import RubyOutline.Proofs.FileRun

namespace RubyOutline

namespace SourceFile

variable {fs : FileSystem} {parser : Parser} {f f' : SourceFile}

/-- The program tree that a run of a file comes to, or why it comes to none. -/
def program (fs : FileSystem) (parser : Parser) (f : SourceFile) : Except SourceError Node := do
  Source.parse parser (← f.text fs)

/-- Without a program tree nothing is known of a file; with one, what is extracted from it. -/
def Coherent (f : SourceFile) : Prop :=
  match f.node with
  | none => f.features = [] ∧ f.diagnostics = []
  | some node =>
    f.features = (extract f.path (.node node)).features ∧
      f.diagnostics = (extract f.path (.node node)).diagnostics

theorem program_of_text {text : String} (h : f.text fs = .ok text) :
    f.program fs parser = Source.parse parser text := by
  rw [program, h]
  rfl

theorem program_of_unread {e : SourceError} (hsource : f.source = none)
    (hread : fs.readText f.path = .error e) : f.program fs parser = .error e := by
  rw [program, SourceFile.text, hsource, hread]
  rfl

/-- What is refused could not be read either. -/
theorem program_of_refusal {e : FileError} (h : f.refusal? = some e) :
    f.program fs parser = .error (.unreadable e) := by
  rw [refusal?] at h
  split at h
  · rename_i hrefused
    obtain ⟨hsource, hnull⟩ := Bool.and_eq_true_iff.1 hrefused
    refine program_of_unread (Option.isNone_iff_eq_none.1 hsource) ?_
    have hfault : FileSystem.pathFault? f.path = some .nullCharacter := if_pos hnull
    cases h
    simp only [FileSystem.readText, FileSystem.read, FileSystem.lookup, FileSystem.resolve, hfault]
    rfl
  · cases h

/-- A run that comes to a program tree makes it the tree of the file. -/
theorem RunsTo.node_of_program {node : Node} (h : f.RunsTo fs parser f')
    (hprogram : f.program fs parser = .ok node) : f'.node = some node := by
  cases h with
  | refused e hrefusal =>
    rw [program_of_refusal hrefusal] at hprogram
    cases hprogram
  | unread e _ hsource hread =>
    rw [program_of_unread hsource hread] at hprogram
    cases hprogram
  | unparsed text e _ htext hparse =>
    rw [program_of_text htext, hparse] at hprogram
    cases hprogram
  | parsed text node _ htext hparse =>
    rw [program_of_text htext, hparse] at hprogram
    cases hprogram
    rfl

/-- A run that comes to none keeps the tree of the file and what was found in it. -/
theorem RunsTo.kept_of_program {e : SourceError} (h : f.RunsTo fs parser f')
    (hprogram : f.program fs parser = .error e) :
    f'.node = f.node ∧ f'.features = f.features ∧ f'.diagnostics = f.diagnostics := by
  cases h with
  | refused | unread | unparsed => exact ⟨rfl, rfl, rfl⟩
  | parsed text node _ htext hparse =>
    rw [program_of_text htext, hparse] at hprogram
    cases hprogram

theorem RunsTo.coherent (h : f.RunsTo fs parser f') (hf : f.Coherent) : f'.Coherent := by
  cases h with
  | refused | unread | unparsed => exact hf
  | parsed => exact ⟨rfl, rfl⟩

/-- A run gives a file a text only if it had none, and the text is what can be read then. -/
theorem RunsTo.source_cases (h : f.RunsTo fs parser f') :
    f'.source = f.source ∨
      f.source = none ∧ ∃ text, fs.readText f.path = .ok text ∧ f'.source = some text := by
  cases h with
  | refused | unread => exact .inl rfl
  | unparsed text _ _ htext | parsed text _ _ htext =>
    obtain hsource | ⟨hsource, hread⟩ := text_ok htext
    · exact .inl hsource.symm
    · exact .inr ⟨hsource, text, hread, rfl⟩

end SourceFile

namespace Session

/-- The session that a sequence of steps leads to. -/
def after (s : Session) (steps : List Step) : Session := steps.foldl next s

/-- A session at its start: nothing is known of any file. -/
def fresh (files : FileSystem) (trees : ParseTable) (paths : List String) : Session :=
  ⟨files, trees, .ofPaths paths⟩

/-- A step that may change what is known of the file with a path. -/
def Step.concerns (path : String) : Step → Bool
  | .setSource other _ | .runFile other => other == path
  | .run => true
  | _ => false

/-- All that a step can make of a file of the project. -/
inductive Becomes (s : Session) (f : SourceFile) : Step → SourceFile → Prop where
  | kept (step : Step) (h : step.concerns f.path = false) : Becomes s f step f
  | set (source : Option String) : Becomes s f (.setSource f.path source) { f with source }
  | ran (f' : SourceFile) (h : f.RunsTo s.files s.trees.parser f') :
      Becomes s f (.runFile f.path) f'
  | ranInOrder (f' : SourceFile) (h : f.RunsTo s.files s.trees.parser f') : Becomes s f .run f'
  | pending (h : s.project.refusal?.isSome) : Becomes s f .run f

variable {s : Session} {step : Step} {i : Nat} {f f' : SourceFile}

theorem length_next_files (s : Session) (step : Step) :
    (s.next step).project.files.length = s.project.files.length := by
  cases step with
  | setSource | runFile => simp [next, Project.runFile, Project.modify]
  | run => exact Project.length_run_files s.files s.trees.parser s.project
  | _ => rfl

/-- The step lemma: what each step makes of each file. -/
theorem next_becomes (hf : s.project.files[i]? = some f)
    (hf' : (s.next step).project.files[i]? = some f') : s.Becomes f step f' := by
  cases step with
  | setSource path source =>
    have hchange := Project.modify_files hf hf'
    by_cases hpath : f.path = path
    · subst hpath
      rw [hchange, if_pos rfl]
      exact .set source
    · rw [hchange, if_neg hpath]
      exact .kept _ (by simpa [Step.concerns] using Ne.symm hpath)
  | runFile path =>
    have hchange := Project.modify_files hf hf'
    by_cases hpath : f.path = path
    · subst hpath
      rw [hchange, if_pos rfl]
      exact .ran _ (f.run_runsTo s.files s.trees.parser)
    · rw [hchange, if_neg hpath]
      exact .kept _ (by simpa [Step.concerns] using Ne.symm hpath)
  | run =>
    obtain rfl | ⟨hrefusal, rfl⟩ := Project.run_files_cases hf hf'
    · exact .ranInOrder _ (f.run_runsTo s.files s.trees.parser)
    · exact .pending hrefusal
  | _ =>
    have hsame : f' = f := Option.some.inj (hf'.symm.trans hf)
    subst hsame
    exact .kept _ rfl

theorem Becomes.path (h : s.Becomes f step f') : f'.path = f.path := by
  cases h with
  | kept | set | pending => rfl
  | ran _ hrun | ranInOrder _ hrun => exact hrun.path

theorem Becomes.coherent (h : s.Becomes f step f') (hf : f.Coherent) : f'.Coherent := by
  cases h with
  | kept | set | pending => exact hf
  | ran _ hrun | ranInOrder _ hrun => exact hrun.coherent hf

/-- The text of a file changes if it is set, or if the file is run without one and can be read. -/
theorem Becomes.source_cases (h : s.Becomes f step f') :
    f'.source = f.source ∨ step = .setSource f.path f'.source ∨
      (step = .runFile f.path ∨ step = .run) ∧ f.source = none ∧
        ∃ text, s.files.readText f.path = .ok text ∧ f'.source = some text := by
  cases h with
  | kept | pending => exact .inl rfl
  | set => exact .inr (.inl rfl)
  | ran _ hrun => exact hrun.source_cases.imp_right fun hread => .inr ⟨.inl rfl, hread⟩
  | ranInOrder _ hrun => exact hrun.source_cases.imp_right fun hread => .inr ⟨.inr rfl, hread⟩

/-- No step changes the program tree of a file that comes to none, nor what was found in it. -/
theorem Becomes.kept_of_program {e : SourceError} (h : s.Becomes f step f')
    (hprogram : f.program s.files s.trees.parser = .error e) :
    f'.node = f.node ∧ f'.features = f.features ∧ f'.diagnostics = f.diagnostics := by
  cases h with
  | kept | set | pending => exact ⟨rfl, rfl, rfl⟩
  | ran _ hrun | ranInOrder _ hrun => exact hrun.kept_of_program hprogram

theorem next_coherent (hs : ∀ f ∈ s.project.files, f.Coherent) (step : Step) :
    ∀ f ∈ (s.next step).project.files, f.Coherent := by
  intro f' hmem
  obtain ⟨i, hlt, rfl⟩ := List.mem_iff_getElem.1 hmem
  have hlt' : i < s.project.files.length := length_next_files s step ▸ hlt
  have hbecomes := next_becomes (List.getElem?_eq_getElem hlt') (List.getElem?_eq_getElem hlt)
  exact hbecomes.coherent (hs _ (List.getElem_mem hlt'))

theorem after_coherent (hs : ∀ f ∈ s.project.files, f.Coherent) (steps : List Step) :
    ∀ f ∈ (s.after steps).project.files, f.Coherent := by
  induction steps generalizing s with
  | nil => exact hs
  | cons step rest ih => exact ih (next_coherent hs step)

theorem fresh_coherent (files : FileSystem) (trees : ParseTable) (paths : List String) :
    ∀ f ∈ (fresh files trees paths).project.files, f.Coherent := by
  intro f hf
  obtain ⟨path, _, rfl⟩ := List.mem_map.1 hf
  exact ⟨rfl, rfl⟩

/-- As long as the text of a file is not set, the text that is known of it stays. -/
theorem after_source {text : String} (steps : List Step) (hf : s.project.files[i]? = some f)
    (hsource : f.source = some text) (hset : ∀ source, .setSource f.path source ∉ steps) :
    ∃ f', (s.after steps).project.files[i]? = some f' ∧ f'.path = f.path ∧
      f'.source = some text := by
  induction steps generalizing s f with
  | nil => exact ⟨f, hf, rfl, hsource⟩
  | cons step rest ih =>
    have hlt : i < (s.next step).project.files.length := by
      rw [length_next_files]
      exact (List.getElem?_eq_some_iff.1 hf).1
    have hbecomes := next_becomes hf (List.getElem?_eq_getElem hlt)
    -- a step changes the text only by setting it, or by a read that needs it to be unknown
    have hkept : (s.next step).project.files[i].source = some text := by
      obtain hsame | hstep | ⟨_, hnone, _⟩ := hbecomes.source_cases
      · rw [hsame, hsource]
      · exact absurd (List.mem_cons.2 (.inl hstep.symm)) (hset _)
      · rw [hsource] at hnone
        cases hnone
    obtain ⟨f', hf', hpath, hsource'⟩ := ih (List.getElem?_eq_getElem hlt) hkept
      fun source hmem => hset source (by rw [← hbecomes.path]; exact List.mem_cons_of_mem step hmem)
    exact ⟨f', hf', hpath.trans hbecomes.path, hsource'⟩

theorem Becomes.node_of_program {node : Node} (h : s.Becomes f (.runFile f.path) f')
    (hprogram : f.program s.files s.trees.parser = .ok node) : f'.node = some node := by
  cases h with
  | kept _ hother => simp [Step.concerns] at hother
  | ran _ hrun => exact hrun.node_of_program hprogram

/-- What holds in every session, whatever steps have led to it. Of each file is known what is in its
program tree. A run that comes to a program tree takes it; as long as a file comes to none, no step
changes the old one and what was found in it. The text of a file changes only if it is set, or if it
was not known and is read. Once it is known, no change of the files on disk is noticed. -/
theorem session_stays_coherent (files : FileSystem) (trees : ParseTable) (paths : List String)
    (steps : List Step) (s : Session) (hs : s = (fresh files trees paths).after steps) :
    (∀ f ∈ s.project.files, f.Coherent) ∧
    (∀ (i : Nat) (f f' : SourceFile), s.project.files[i]? = some f →
      (s.next (.runFile f.path)).project.files[i]? = some f' →
        ∀ node, f.program s.files s.trees.parser = .ok node → f'.node = some node) ∧
    (∀ (step : Step) (i : Nat) (f f' : SourceFile), s.project.files[i]? = some f →
      (s.next step).project.files[i]? = some f' →
        (∀ e, f.program s.files s.trees.parser = .error e →
          f'.node = f.node ∧ f'.features = f.features ∧ f'.diagnostics = f.diagnostics) ∧
        (f'.source = f.source ∨ step = .setSource f.path f'.source ∨
          (step = .runFile f.path ∨ step = .run) ∧ f.source = none ∧
            ∃ text, s.files.readText f.path = .ok text ∧ f'.source = some text)) ∧
    ∀ (later : List Step) (i : Nat) (f : SourceFile) (text : String),
      s.project.files[i]? = some f → f.source = some text →
        (∀ source, .setSource f.path source ∉ later) →
          ∃ f' : SourceFile, (s.after later).project.files[i]? = some f' ∧
            f'.path = f.path ∧ f'.source = some text ∧
            ∀ disk parser, f'.run disk parser = f'.run (s.after later).files parser := by
  refine ⟨?_, ?_, ?_, ?_⟩
  · rw [hs]
    exact after_coherent (fresh_coherent files trees paths) steps
  · intro i f f' hf hf' node hprogram
    exact (next_becomes hf hf').node_of_program hprogram
  · intro step i f f' hf hf'
    have hbecomes := next_becomes hf hf'
    exact ⟨fun e hprogram => hbecomes.kept_of_program hprogram, hbecomes.source_cases⟩
  · intro later i f text hf hsource hset
    obtain ⟨f', hf', hpath, hsource'⟩ := after_source later hf hsource hset
    exact ⟨f', hf', hpath, hsource', fun disk parser => SourceFile.run_eq_of_source hsource'⟩

/-- The tree of a text that is one letter, read as a method of that name. -/
def oneMethodTree : ParseTree where
  type := "program"
  children := [{ type := "method", children := [{ type := "x", stop := 1, field := some "name" }] }]

/-- A file is run, then written anew; its tree is forgotten, and it is run again. -/
def rewritten : Session :=
  (fresh ⟨.directory [("a.rb", .file [97])], []⟩ [("a", oneMethodTree)] ["a.rb"]).after
    [.runFile "a.rb", .write "a.rb" [98], .forget "a", .run]

/-- The second run fails, with the text of the first, and what the first has found stays. -/
theorem session_stays_coherent_rewritten :
    (∀ f ∈ rewritten.project.files, f.Coherent) ∧
    rewritten.project.files.map SourceFile.source = [some "a"] ∧
    rewritten.project.failedFiles = ["a.rb"] ∧
    rewritten.project.features.map Feature.name = ["a"] := by
  refine ⟨?_, ?_, ?_, ?_⟩
  · exact (session_stays_coherent _ _ _ _ rewritten rfl).1
  all_goals cbv

end Session

end RubyOutline
