import Mathlib.Data.List.TakeWhile
import RubyOutline.Project.Basic

namespace RubyOutline

namespace SourceFile

/-- A file with the program tree that a run has made of a text, and what is found in that tree. -/
def withNode (f : SourceFile) (text : String) (node : Node) : SourceFile :=
  { f with
    source := some text
    node := some node
    features := (extract f.path (.node node)).features
    diagnostics := (extract f.path (.node node)).diagnostics }

variable {fs fs' : FileSystem} {parser : Parser} {f f' : SourceFile}

theorem text_error {e : SourceError} (h : f.text fs = .error e) :
    f.source = none ∧ fs.readText f.path = .error e := by
  rw [SourceFile.text] at h
  split at h
  · cases h
  · rename_i hsource
    exact ⟨hsource, h⟩

theorem text_ok {text : String} (h : f.text fs = .ok text) :
    f.source = some text ∨ f.source = none ∧ fs.readText f.path = .ok text := by
  rw [SourceFile.text] at h
  split at h
  · rename_i kept hsource
    cases h
    exact .inl hsource
  · rename_i hsource
    exact .inr ⟨hsource, h⟩

theorem refusal?_of_source {text : String} (h : f.source = some text) : f.refusal? = none := by
  rw [refusal?, h]
  rfl

theorem refusal?_fresh {path : String} (h : Path.hasNull path = false) :
    ({ path } : SourceFile).refusal? = none := by
  simp [refusal?, h]

/-- All that a run can make of a file. -/
inductive RunsTo (fs : FileSystem) (parser : Parser) (f : SourceFile) : SourceFile → Prop where
  | refused (e : FileError) (h : f.refusal? = some e) : RunsTo fs parser f f
  | unread (e : SourceError) (h : f.refusal? = none) (hsource : f.source = none)
      (hread : fs.readText f.path = .error e) : RunsTo fs parser f { f with failed := true }
  | unparsed (text : String) (e : SourceError) (h : f.refusal? = none)
      (htext : f.text fs = .ok text) (hparse : Source.parse parser text = .error e) :
      RunsTo fs parser f { f with source := some text, failed := true }
  | parsed (text : String) (node : Node) (h : f.refusal? = none)
      (htext : f.text fs = .ok text) (hparse : Source.parse parser text = .ok node) :
      RunsTo fs parser f (f.withNode text node)

theorem run_runsTo (fs : FileSystem) (parser : Parser) (f : SourceFile) :
    f.RunsTo fs parser (f.run fs parser).1 := by
  unfold run
  cases hrefusal : f.refusal? with
  | some e => exact .refused e hrefusal
  | none =>
    rw [if_neg (by simp)]
    cases htext : f.text fs with
    | error e => exact .unread e hrefusal (text_error htext).1 (text_error htext).2
    | ok text =>
      simp only
      cases hparse : Source.parse parser text with
      | error e => exact .unparsed text e hrefusal htext hparse
      | ok node => exact .parsed text node hrefusal htext hparse

/-- What a run makes of a file is determined by what can be read and parsed. -/
theorem RunsTo.run_eq (h : f.RunsTo fs parser f') : (f.run fs parser).1 = f' := by
  unfold run
  cases h with
  | refused e hrefusal => rw [if_pos (by simp [hrefusal])]
  | unread e hrefusal hsource hread =>
    have htext : f.text fs = .error e := by rw [SourceFile.text, hsource, hread]
    rw [if_neg (by simp [hrefusal]), htext]
  | unparsed text e hrefusal htext hparse =>
    rw [if_neg (by simp [hrefusal]), htext]
    simp only [hparse]
  | parsed text node hrefusal htext hparse =>
    rw [if_neg (by simp [hrefusal]), htext]
    simp only [hparse]
    rfl

theorem RunsTo.path (h : f.RunsTo fs parser f') : f'.path = f.path := by
  cases h <;> rfl

/-- A file that has been run is not changed by the next run of it. -/
theorem RunsTo.again (h : f.RunsTo fs parser f') : f'.RunsTo fs parser f' := by
  cases h with
  | refused e hrefusal => exact .refused e hrefusal
  | unread e hrefusal hsource hread => exact .unread e hrefusal hsource hread
  | unparsed text e _ _ hparse => exact .unparsed text e (refusal?_of_source rfl) rfl hparse
  | parsed text node _ _ hparse => exact .parsed text node (refusal?_of_source rfl) rfl hparse

theorem run_run (fs : FileSystem) (parser : Parser) (f : SourceFile) :
    ((f.run fs parser).1.run fs parser).1 = (f.run fs parser).1 :=
  (run_runsTo fs parser f).again.run_eq

/-- Once its text is known, the run of a file does not depend on what the file system holds. -/
theorem run_eq_of_source {text : String} (h : f.source = some text) :
    f.run fs parser = f.run fs' parser := by
  simp only [run, SourceFile.text, h]

end SourceFile

namespace Project

variable {fs : FileSystem} {parser : Parser} {p : Project} {i : Nat} {f f' : SourceFile}

theorem length_run_files (fs : FileSystem) (parser : Parser) (p : Project) :
    (p.run fs parser).files.length = p.files.length := by
  rw [← congrArg List.length p.accepted_append_pending]
  simp [run]

theorem refusal?_ofPaths {paths : List String} (h : ∀ path ∈ paths, Path.hasNull path = false) :
    (ofPaths paths).refusal? = none := by
  rw [refusal?, List.findSome?_eq_none_iff]
  intro f hf
  obtain ⟨path, hpath, rfl⟩ := List.mem_map.1 hf
  exact SourceFile.refusal?_fresh (h path (List.mem_eraseDups.1 hpath))

theorem pending_eq_nil (h : p.refusal? = none) : p.pending = [] := by
  rw [refusal?, List.findSome?_eq_none_iff] at h
  rw [pending, List.dropWhile_eq_nil_iff]
  intro f hf
  simp [h f hf]

/-- If no file is refused, a run of all files is the run of each. -/
theorem run_files (h : p.refusal? = none) :
    (p.run fs parser).files = p.files.map fun f => (f.run fs parser).1 := by
  have haccepted : p.accepted = p.files := by
    simpa [pending_eq_nil h] using p.accepted_append_pending
  simp [run, pending_eq_nil h, haccepted]

/-- The file at a place of a project with one file changed. -/
theorem modify_files {path : String} {change : SourceFile → SourceFile}
    (hf : p.files[i]? = some f) (hf' : (p.modify path change).files[i]? = some f') :
    f' = if f.path = path then change f else f := by
  simpa [modify, hf] using hf'.symm

/-- The file at a place of a project after a run of all files: it has been run, or the run was
stopped before. -/
theorem run_files_cases (hf : p.files[i]? = some f) (hf' : (p.run fs parser).files[i]? = some f') :
    f' = (f.run fs parser).1 ∨ p.refusal?.isSome ∧ f' = f := by
  rw [← p.accepted_append_pending] at hf
  simp only [run, List.getElem?_append, List.length_map] at hf hf'
  split at hf
  · rename_i hlt
    rw [if_pos hlt, List.getElem?_map, hf] at hf'
    exact .inl (by simpa using hf'.symm)
  · rename_i hge
    rw [if_neg hge, hf] at hf'
    refine .inr ⟨?_, by simpa using hf'.symm⟩
    cases hrefusal : p.refusal? with
    | none => simp [pending_eq_nil hrefusal] at hf
    | some e => rfl

end Project

end RubyOutline
