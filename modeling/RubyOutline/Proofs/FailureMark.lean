import RubyOutline.Proofs.SessionCoherence

namespace RubyOutline

namespace SourceFile

variable {fs : FileSystem} {parser : Parser} {f f' : SourceFile}

/-- A run tries the file and comes to no program tree. A file that is refused is not tried. -/
def fails (fs : FileSystem) (parser : Parser) (f : SourceFile) : Bool :=
  f.refusal?.isNone && !(f.program fs parser).isOk

theorem fails_of_program {result : Except SourceError Node} (h : f.refusal? = none)
    (hprogram : f.program fs parser = result) : f.fails fs parser = !result.isOk := by
  rw [fails, h, hprogram]
  rfl

/-- A run marks a file that fails, and leaves the mark of any other as it is. -/
theorem RunsTo.failed_eq (h : f.RunsTo fs parser f') :
    f'.failed = (f.failed || f.fails fs parser) := by
  cases h with
  | refused e hrefusal => simp [fails, hrefusal]
  | unread e hrefusal hsource hread =>
    have hprogram : f.program fs parser = .error e := program_of_unread hsource hread
    have hfails := fails_of_program hrefusal hprogram
    simp [hfails, Except.isOk, Except.toBool]
  | unparsed text e hrefusal htext hparse =>
    have hprogram : f.program fs parser = .error e := (program_of_text htext).trans hparse
    have hfails := fails_of_program hrefusal hprogram
    simp [hfails, Except.isOk, Except.toBool]
  | parsed text node hrefusal htext hparse =>
    have hprogram : f.program fs parser = .ok node := (program_of_text htext).trans hparse
    have hfails := fails_of_program hrefusal hprogram
    simp [hfails, Except.isOk, Except.toBool, withNode]

end SourceFile

namespace Project

variable {fs : FileSystem} {parser : Parser} {p : Project}

/-- A run of all files runs those before the first that is refused. -/
theorem getElem?_run_files (i : Nat) :
    (p.run fs parser).files[i]? =
      p.files[i]?.map fun f => if i < p.accepted.length then (f.run fs parser).1 else f := by
  have hfiles : p.files[i]? = (p.accepted ++ p.pending)[i]? := by rw [p.accepted_append_pending]
  rw [run, hfiles, List.getElem?_append, List.getElem?_append, List.length_map]
  by_cases hlt : i < p.accepted.length
  · simp only [if_pos hlt, List.getElem?_map]
  · simp only [if_neg hlt, Option.map_id']

/-- The files that are marked after a run in which none is refused. -/
theorem failedFiles_run (h : p.refusal? = none) :
    (p.run fs parser).failedFiles =
      (p.files.filter fun f => f.failed || f.fails fs parser).map SourceFile.path := by
  have hfailed (f : SourceFile) := (f.run_runsTo fs parser).failed_eq
  have hpath (f : SourceFile) := (f.run_runsTo fs parser).path
  rw [failedFiles, run_files h, List.filter_map, List.map_map]
  simp only [Function.comp_def, hfailed, hpath]

end Project

namespace Session

variable {s : Session} {step : Step} {i : Nat} {f f' : SourceFile}

/-- A step tries the file at a place: it names the file, or it is a run that comes that far. -/
def Tries (s : Session) (i : Nat) (f : SourceFile) : Step → Prop
  | .runFile path => path = f.path
  | .run => i < s.project.accepted.length
  | _ => False

/-- A step tries the file at a place and fails. -/
def FailsAt (s : Session) (i : Nat) (step : Step) : Prop :=
  ∃ f, s.project.files[i]? = some f ∧ s.Tries i f step ∧
    f.fails s.files s.trees.parser = true

theorem failsAt_iff (hf : s.project.files[i]? = some f) :
    s.FailsAt i step ↔ s.Tries i f step ∧ f.fails s.files s.trees.parser = true := by
  simp [FailsAt, hf]

/-- The step lemma: a step marks the file that it tries if it fails, and changes no other mark. -/
theorem failed_next_iff (hf : s.project.files[i]? = some f)
    (hf' : (s.next step).project.files[i]? = some f') :
    f'.failed = true ↔ f.failed = true ∨ s.FailsAt i step := by
  rw [failsAt_iff hf]
  have hbecomes := next_becomes hf hf'
  cases step with
  | run =>
    have hrun : f' = if i < s.project.accepted.length
        then (f.run s.files s.trees.parser).1 else f := by
      have hfiles := hf'.symm.trans (Project.getElem?_run_files i)
      rw [hf] at hfiles
      exact Option.some.inj hfiles
    by_cases hlt : i < s.project.accepted.length
    · rw [hrun, if_pos hlt, (f.run_runsTo s.files s.trees.parser).failed_eq]
      simp [Tries, hlt]
    · rw [hrun, if_neg hlt]
      simp [Tries, hlt]
  | runFile path =>
    cases hbecomes with
    | kept _ hother =>
      have hne : path ≠ f.path := by simpa [Step.concerns] using hother
      simp [Tries, hne]
    | ran _ hran =>
      rw [hran.failed_eq]
      simp [Tries]
  | setSource path source =>
    cases hbecomes <;> simp [Tries]
  | write | makeDirectory | remove | register | forget | report =>
    cases hbecomes
    simp [Tries]

/-- The run lemma: after some steps a file is marked if it was before, or if one of them has tried
it and failed. -/
theorem failed_after_iff (steps : List Step) (hf : s.project.files[i]? = some f)
    (hf' : (s.after steps).project.files[i]? = some f') :
    f'.failed = true ↔ f.failed = true ∨
      ∃ before step rest, steps = before ++ step :: rest ∧ (s.after before).FailsAt i step := by
  induction steps generalizing s f with
  | nil =>
    have hsame : f' = f := Option.some.inj (hf'.symm.trans hf)
    simp [hsame]
  | cons first steps ih =>
    have hlt : i < (s.next first).project.files.length := by
      rw [length_next_files]
      exact (List.getElem?_eq_some_iff.1 hf).1
    have hmiddle := List.getElem?_eq_getElem hlt
    rw [ih hmiddle hf', failed_next_iff hf hmiddle, or_assoc]
    apply or_congr_right
    constructor
    · rintro (hfirst | ⟨before, step, rest, rfl, hfails⟩)
      · exact ⟨[], first, steps, rfl, hfirst⟩
      · exact ⟨first :: before, step, rest, rfl, hfails⟩
    · rintro ⟨before, step, rest, hsteps, hfails⟩
      cases before with
      | nil =>
        obtain ⟨rfl, rfl⟩ := List.cons.inj hsteps
        exact .inl hfails
      | cons other before =>
        obtain ⟨rfl, rfl⟩ := List.cons.inj hsteps
        exact .inr ⟨before, step, rest, rfl, hfails⟩

theorem fresh_failed {files : FileSystem} {trees : ParseTable} {paths : List String}
    (hf : (fresh files trees paths).project.files[i]? = some f) : f.failed = false := by
  obtain ⟨path, _, rfl⟩ := List.mem_map.1 (List.mem_of_getElem? hf)
  rfl

theorem length_after_files (s : Session) (steps : List Step) :
    (s.after steps).project.files.length = s.project.files.length := by
  induction steps generalizing s with
  | nil => rfl
  | cons step steps ih => exact (ih (s.next step)).trans (length_next_files s step)

/-- What the marks tell in every session, whatever steps have led to it. A call marks the file that
it names if it fails, and never takes the mark away. A file is marked exactly if some step since the
start has tried it and failed. After a run in which no file is refused, the files with a mark are
those that have failed in this run or were marked before. -/
theorem failure_mark_stays (files : FileSystem) (trees : ParseTable) (paths : List String)
    (steps : List Step) (s : Session) (hs : s = (fresh files trees paths).after steps) :
    (∀ (i : Nat) (f f' : SourceFile), s.project.files[i]? = some f →
      (s.next (.runFile f.path)).project.files[i]? = some f' →
        f'.failed = (f.failed || f.fails s.files s.trees.parser)) ∧
    (∀ (i : Nat) (f : SourceFile), s.project.files[i]? = some f →
      (f.failed = true ↔ ∃ before step rest, steps = before ++ step :: rest ∧
        ((fresh files trees paths).after before).FailsAt i step)) ∧
    (s.project.refusal? = none →
      (s.next .run).project.failedFiles = (s.project.files.filter fun f =>
        f.failed || f.fails s.files s.trees.parser).map SourceFile.path) := by
  refine ⟨?_, ?_, ?_⟩
  · intro i f f' hf hf'
    have hiff := failed_next_iff hf hf'
    rw [failsAt_iff hf] at hiff
    rw [Bool.eq_iff_iff, hiff]
    simp [Tries]
  · intro i f hf
    rw [hs] at hf
    have hlt : i < (fresh files trees paths).project.files.length := by
      rw [← length_after_files _ steps]
      exact (List.getElem?_eq_some_iff.1 hf).1
    have hstart := List.getElem?_eq_getElem hlt
    rw [failed_after_iff steps hstart hf, fresh_failed hstart]
    simp
  · intro hrefusal
    exact Project.failedFiles_run hrefusal

/-- A session with one file, which is missing at its start. -/
def withMissingFile : Session := fresh ⟨.directory [], []⟩ [("a", oneMethodTree)] ["a.rb"]

/-- The file is run, then written and run again. -/
def recovery : List Step := [.runFile "a.rb", .write "a.rb" [97], .runFile "a.rb"]

/-- The second run finds what is in the file, and the mark that the first has left stays. -/
theorem failure_mark_stays_recovery :
    (withMissingFile.after recovery).project.features.map Feature.name = ["a"] ∧
    (withMissingFile.after recovery).project.failedFiles = ["a.rb"] ∧
    ∃ before step rest, recovery = before ++ step :: rest ∧
      (withMissingFile.after before).FailsAt 0 step := by
  have hlt : 0 < (withMissingFile.after recovery).project.files.length := by decide
  have hfailed : (withMissingFile.after recovery).project.files[0].failed = true := by cbv
  obtain ⟨-, hmark, -⟩ := failure_mark_stays _ _ _ recovery _ rfl
  refine ⟨by cbv, by cbv, ?_⟩
  exact (hmark 0 _ (List.getElem?_eq_getElem hlt)).1 hfailed

/-- The mark of a file does not tell whether the latest call has failed: a call for the file that
was missing comes to a program tree, and the file is marked after it. -/
theorem recovered_file_stays_marked :
    ¬ ∀ (files : FileSystem) (trees : ParseTable) (paths : List String) (steps : List Step)
      (s : Session), s = (fresh files trees paths).after steps →
        ∀ (i : Nat) (f f' : SourceFile), s.project.files[i]? = some f →
          (s.next (.runFile f.path)).project.files[i]? = some f' →
            (f'.failed = true ↔ ∃ e, f.program s.files s.trees.parser = .error e) := by
  intro h
  let s := withMissingFile.after [.runFile "a.rb", .write "a.rb" [97]]
  let f : SourceFile := { path := "a.rb", failed := true }
  have hfile : s.project.files[0]? = some f := by cbv
  have hcalled : (s.next (.runFile "a.rb")).project.files[0]? =
      some (f.run s.files s.trees.parser).1 := by
    rw [next, Project.runFile, Project.modify, List.getElem?_map, hfile]
    rfl
  have hmarked : (f.run s.files s.trees.parser).1.failed = true := by cbv
  have hparsed : (f.program s.files s.trees.parser).isOk = true := by cbv
  obtain ⟨e, herror⟩ := (h _ _ _ _ s rfl 0 f _ hfile hcalled).1 hmarked
  rw [herror] at hparsed
  cases hparsed

end Session

end RubyOutline
