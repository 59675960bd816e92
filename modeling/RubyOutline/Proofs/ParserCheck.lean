import Mathlib
import RubyOutline.Proofs.Lowering
import RubyOutline.Run.Basic

namespace RubyOutline

namespace ParseTree

/-- No node down to a depth marks a place that could not be read. -/
def IsReadTo (limit : Int) (t : ParseTree) : Prop :=
  ∀ (way : List Nat) (e : ParseTree), t.at? way = some e → way.length ≤ limit → e.isError = false

theorem isReadTo_of_neg {limit : Int} (h : limit < 0) (t : ParseTree) : t.IsReadTo limit := by
  intro way e _ hlimit
  omega

/-- One level of a tree: its root, and its children down to one level less. -/
theorem isReadTo_iff {limit : Int} (h : 0 ≤ limit) (t : ParseTree) :
    t.IsReadTo limit ↔ t.isError = false ∧ ∀ c ∈ t.children, c.IsReadTo (limit - 1) := by
  constructor
  · intro hread
    refine ⟨hread [] t rfl (by simpa using h), fun c hc way e he hlimit => ?_⟩
    obtain ⟨i, hi⟩ := List.getElem?_of_mem hc
    refine hread (way ++ [i]) e ?_ ?_
    · rw [at?_append_singleton, hi]
      exact he
    · rw [List.length_append, List.length_singleton]
      omega
  · rintro ⟨hroot, hchildren⟩ way e he hlimit
    rcases List.eq_nil_or_concat way with rfl | ⟨inner, i, rfl⟩
    · cases he
      exact hroot
    · rw [List.concat_eq_append, at?_append_singleton] at he
      obtain ⟨c, hc, he⟩ := Option.bind_eq_some_iff.mp he
      refine hchildren c (List.mem_of_getElem? hc) inner e he ?_
      rw [List.concat_eq_append, List.length_append, List.length_singleton] at hlimit
      omega

end ParseTree

namespace ErrorNode

variable {source : List UInt8} {limit depth : Int}

theorem find_eq (t : ParseTree) :
    find source limit depth t =
      if limit < depth then []
      else (if t.isError then [⟨t, depth, excerpt excerptLength (t.text source)⟩] else []) ++
        findAll source limit (depth + 1) t.children := by
  obtain ⟨type, start, stop, row, column, named, missing, field, children⟩ := t
  rw [find]

theorem findAll_eq_nil_iff {trees : List ParseTree} :
    findAll source limit depth trees = [] ↔ ∀ t ∈ trees, find source limit depth t = [] := by
  induction trees with
  | nil => simp [findAll]
  | cons t rest ih => rw [findAll, List.append_eq_nil_iff, ih, List.forall_mem_cons]

/-- The search finds nothing where there is nothing to be found within its reach. -/
theorem find_eq_nil_iff (t : ParseTree) :
    find source limit depth t = [] ↔ t.IsReadTo (limit - depth) := by
  induction t using ParseTree.childInduction generalizing depth with
  | step t ih =>
    rw [find_eq]
    by_cases hlimit : limit < depth
    · rw [if_pos hlimit]
      exact iff_of_true rfl (ParseTree.isReadTo_of_neg (by omega) t)
    · have hnext : limit - (depth + 1) = limit - depth - 1 := by omega
      have hchildren : findAll source limit (depth + 1) t.children = [] ↔
          ∀ c ∈ t.children, c.IsReadTo (limit - depth - 1) := by
        rw [findAll_eq_nil_iff, ← hnext]
        exact forall₂_congr fun c hc => ih c hc
      rw [if_neg hlimit, ParseTree.isReadTo_iff (by omega), List.append_eq_nil_iff, hchildren]
      cases t.isError <;> simp

theorem ofFile_eq_nil_iff (text : String) (t : ParseTree) :
    ofFile text t = [] ↔ t.IsReadTo defaultLimit := by
  rw [ofFile, find_eq_nil_iff, Int.sub_zero]

end ErrorNode

namespace ParserCheck

variable {fs : FileSystem} {parser : Parser} {paths : List String}

theorem errorLog_eq_nil_iff (path : String) (errors : List ErrorNode) :
    errorLog path errors = [] ↔ errors = [] := by
  cases errors <;> simp [errorLog]

/-- A file passes: it can be read and parsed, and no error node is found in its tree. -/
theorem checkFile_eq_nil_iff (path : String) :
    checkFile fs parser path = [] ↔ ∃ text t, fs.readText path = .ok text ∧
      parser text = .ok t ∧ t.IsReadTo ErrorNode.defaultLimit := by
  unfold checkFile
  cases hread : fs.readText path with
  | error e => simp
  | ok text =>
    cases hparse : parser text with
    | error reason => simp [Source.tree, hparse, Except.mapError]
    | ok t =>
      simp [Source.tree, hparse, Except.mapError, errorLog_eq_nil_iff, ErrorNode.ofFile_eq_nil_iff]

/-- The line that tells of success. -/
def passedLine : String := "✓ Parser validation PASSED: No ERROR nodes found"

theorem passed_iff : (check fs parser paths).passed = true ↔
    ∀ path ∈ paths, checkFile fs parser path = [] := by
  rw [← List.flatMap_eq_nil_iff, check]
  cases paths.flatMap (checkFile fs parser) <;> simp

theorem passedLine_mem_iff :
    passedLine ∈ (check fs parser paths).lines ↔ (check fs parser paths).passed = true := by
  rw [check]
  cases paths.flatMap (checkFile fs parser) with
  | nil => simp [passedLine]
  | cons => simp [passedLine]

end ParserCheck

/-- The parser check passes, and says so, exactly if every file can be read and parsed and no tree
has an error node within the depth that is searched. A run of the check ends with status zero if it
passes and with status one if it does not. -/
theorem parser_check_is_exact (w : Run.World) (paths : List String) :
    let verdict := ParserCheck.check w.files w.parser paths
    (verdict.passed = true ↔ ∀ path ∈ paths, ∃ text t, w.files.readText path = .ok text ∧
      w.parser text = .ok t ∧ t.IsReadTo ErrorNode.defaultLimit) ∧
    (ParserCheck.passedLine ∈ verdict.lines ↔ verdict.passed = true) ∧
    ∀ o : Options, o.checkParser = true → Collection.collect w.files o.inputPath = .ok paths →
      paths ≠ [] → (Run.withOptions w o).ending = .exit (if verdict.passed then 0 else 1) ∧
        (Run.withOptions w o).stdout = joinLines verdict.lines := by
  refine ⟨?_, ParserCheck.passedLine_mem_iff, fun o hcheck hcollect hpaths => ?_⟩
  · rw [ParserCheck.passed_iff]
    exact forall₂_congr fun path _ => ParserCheck.checkFile_eq_nil_iff path
  · cases paths with
    | nil => exact absurd rfl hpaths
    | cons path rest =>
      simp only [Run.withOptions, hcollect, hcheck, if_true]
      exact ⟨rfl, rfl⟩

/-- An error node below a number of other nodes. -/
def buriedError : Nat → ParseTree
  | 0 => { type := "ERROR" }
  | depth + 1 => { type := "x", children := [buriedError depth] }

theorem buriedError_at? (depth : Nat) :
    (buriedError depth).at? (List.replicate depth 0) = some (buriedError 0) := by
  induction depth with
  | zero => rfl
  | succ depth ih =>
    rw [List.replicate_succ', ParseTree.at?_append_singleton]
    exact ih

theorem isReadTo_buriedError {depth : Nat} {limit : Int} (h : limit < depth) :
    (buriedError depth).IsReadTo limit := by
  induction depth generalizing limit with
  | zero => exact ParseTree.isReadTo_of_neg h _
  | succ depth ih =>
    by_cases hlimit : limit < 0
    · exact ParseTree.isReadTo_of_neg hlimit _
    · refine (ParseTree.isReadTo_iff (by omega) _).mpr ⟨rfl, fun c hc => ?_⟩
      obtain rfl := List.mem_singleton.mp hc
      exact ih (by omega)

/-- A directory with one file, in which every text has a buried error. -/
def buriedWorld (depth : Nat) : Run.World where
  files := ⟨.directory [("a.rb", .file [97])], []⟩
  parser := fun _ => .ok (buriedError depth)

theorem readText_buriedWorld (depth : Nat) :
    (buriedWorld depth).files.readText "a.rb" = .ok "a" := by
  cbv

theorem collect_buriedWorld (depth : Nat) :
    Collection.collect (buriedWorld depth).files "a.rb" = .ok ["a.rb"] := by
  cbv

def checkOptions : Options := { inputPath := "a.rb", checkParser := true }

/-- The search goes down to depth fifty and no further. -/
theorem parser_check_is_exact_buriedWorld :
    Collection.collect (buriedWorld 50).files checkOptions.inputPath = .ok ["a.rb"] ∧
      (Run.withOptions (buriedWorld 50) checkOptions).ending = .exit 1 ∧
      (Run.withOptions (buriedWorld 51) checkOptions).ending = .exit 0 := by
  refine ⟨collect_buriedWorld 50, ?_, ?_⟩
  · obtain ⟨hpassed, -, hrun⟩ := parser_check_is_exact (buriedWorld 50) ["a.rb"]
    have hending := (hrun checkOptions rfl (collect_buriedWorld 50) (List.cons_ne_nil _ _)).1
    have hfailed : ¬(ParserCheck.check (buriedWorld 50).files (buriedWorld 50).parser
        ["a.rb"]).passed = true := by
      intro h
      obtain ⟨text, t, -, htree, hread⟩ := hpassed.mp h "a.rb" (List.mem_singleton.mpr rfl)
      cases htree
      have herror := hread _ _ (buriedError_at? 50) (by decide)
      cases herror
    rw [hending, if_neg hfailed]
  · obtain ⟨hpassed, -, hrun⟩ := parser_check_is_exact (buriedWorld 51) ["a.rb"]
    have hending := (hrun checkOptions rfl (collect_buriedWorld 51) (List.cons_ne_nil _ _)).1
    rw [hending, if_pos]
    refine hpassed.mpr fun path hpath => ?_
    obtain rfl := List.mem_singleton.mp hpath
    exact ⟨"a", buriedError 51, readText_buriedWorld 51, rfl, isReadTo_buriedError (by decide)⟩

/-- An error node just below the depth that is searched goes through the check. -/
theorem buried_error_passes_the_check :
    ¬∀ (fs : FileSystem) (parser : Parser) (paths : List String),
      (ParserCheck.check fs parser paths).passed = true ↔
        ∀ path ∈ paths, ∃ text t, fs.readText path = .ok text ∧ parser text = .ok t ∧
          ∀ (way : List Nat) (e : ParseTree), t.at? way = some e → e.isError = false := by
  intro h
  have hpassed : (ParserCheck.check (buriedWorld 51).files (buriedWorld 51).parser
      ["a.rb"]).passed = true := by
    rw [ParserCheck.passed_iff]
    intro path hpath
    obtain rfl := List.mem_singleton.mp hpath
    exact (ParserCheck.checkFile_eq_nil_iff _).mpr
      ⟨"a", buriedError 51, readText_buriedWorld 51, rfl, isReadTo_buriedError (by decide)⟩
  obtain ⟨text, t, -, htree, hnone⟩ := (h _ _ _).mp hpassed "a.rb" (List.mem_singleton.mpr rfl)
  cases htree
  have herror := hnone _ _ (buriedError_at? 51)
  cases herror

end RubyOutline
