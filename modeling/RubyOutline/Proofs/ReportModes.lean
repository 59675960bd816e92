import Mathlib
import RubyOutline.Project.Printing
import RubyOutline.Proofs.FeatureListing

namespace RubyOutline

theorem joinLines_cons (line : String) (lines : List String) :
    joinLines (line :: lines) = line ++ "\n" ++ joinLines lines := by
  rw [joinLines, List.map_cons, String.join_cons, joinLines]

theorem joinLines_append (lines others : List String) :
    joinLines (lines ++ others) = joinLines lines ++ joinLines others := by
  rw [joinLines, List.map_append, String.join_append, joinLines, joinLines]

/-- Every line ends in a line feed of its own. -/
theorem length_le_count_joinLines (lines : List String) :
    lines.length ≤ (joinLines lines).toList.count '\n' := by
  induction lines with
  | nil => exact Nat.zero_le _
  | cons line lines ih =>
    rw [joinLines_cons, String.toList_append, String.toList_append, List.count_append,
      List.count_append, List.length_cons]
    have hfeed : "\n".toList.count '\n' = 1 := by decide
    omega

namespace Printout

/-- A printout with more text after all that has been printed. -/
def append (out : Printout) (text : String) : Printout :=
  ⟨out.stdout ++ text, out.file.map (· ++ text)⟩

theorem append_empty (out : Printout) : out.append "" = out := by
  obtain ⟨stdout, file⟩ := out
  cases file <;> simp [append]

theorem append_append (out : Printout) (text more : String) :
    (out.append text).append more = out.append (text ++ more) := by
  obtain ⟨stdout, file⟩ := out
  cases file <;> simp [append, String.append_assoc]

theorem print_eq (out : Printout) (line : String) : out.print line = out.append (line ++ "\n") := by
  obtain ⟨stdout, file⟩ := out
  cases file <;> simp [print, append, String.append_assoc]

theorem foldl_print (out : Printout) (lines : List String) :
    lines.foldl print out = out.append (joinLines lines) := by
  induction lines generalizing out with
  | nil => exact out.append_empty.symm
  | cons line lines ih =>
    rw [List.foldl_cons, ih, print_eq, append_append, joinLines_cons]

end Printout

/-- An entry of a listing without its place: how deep it is nested, and its heading. -/
def Listed.nested (e : Listed) : Nat × Heading := (e.holders.length, e.heading)

namespace Feature

theorem publicOnly_flatMap {α : Type} (items : List α) (features : α → List Feature) :
    publicOnly (items.flatMap features) = items.flatMap fun item => publicOnly (features item) := by
  induction items with
  | nil => rfl
  | cons item items ih => rw [List.flatMap_cons, publicOnly_append, ih, List.flatMap_cons]

mutual

/-- How deep features are nested does not depend on where in a listing they stand. -/
theorem map_nested_listingOf {holders holders' : List Nat} (h : holders.length = holders'.length)
    (place place' : Nat) : ∀ f : Feature,
    (listingOf holders place f).map Listed.nested = (listingOf holders' place' f).map Listed.nested
  | .classLike name location children => by
    have hinside : (holders ++ [place]).length = (holders' ++ [place']).length := by
      rw [List.length_append, List.length_append, h]
      rfl
    rw [listingOf, listingOf, List.map_cons, List.map_cons,
      map_nested_listingFrom hinside (place + 1) (place' + 1) children, Listed.nested,
      Listed.nested,
      h]
  | .method m => by
    rw [listingOf, listingOf, List.map_singleton, List.map_singleton, Listed.nested, Listed.nested,
      h]

theorem map_nested_listingFrom {holders holders' : List Nat}
    (h : holders.length = holders'.length) (place place' : Nat) : ∀ fs : List Feature,
    (listingFrom holders place fs).map Listed.nested =
      (listingFrom holders' place' fs).map Listed.nested
  | [] => rfl
  | f :: fs => by
    rw [listingFrom, listingFrom, List.map_append, List.map_append,
      map_nested_listingOf h place place' f, map_nested_listingFrom h _ _ fs]

end

theorem map_nested_listing_append (fs gs : List Feature) :
    (listing (fs ++ gs)).map Listed.nested =
      (listing fs).map Listed.nested ++ (listing gs).map Listed.nested := by
  rw [listing, listing, listing, listingFrom_append, List.map_append]
  congr 1
  exact map_nested_listingFrom rfl _ _ gs

theorem map_nested_listing_flatMap {α : Type} (items : List α) (features : α → List Feature) :
    (listing (items.flatMap features)).map Listed.nested =
      items.flatMap fun item => (listing (features item)).map Listed.nested := by
  induction items with
  | nil => rfl
  | cons item items ih => rw [List.flatMap_cons, map_nested_listing_append, ih, List.flatMap_cons]

end Feature

namespace Outline

/-- The line of a feature, without the spaces before it. -/
def headingText (p : Palette) : Heading → String
  | .classLike name location => p.bold ++ name ++ p.reset ++ lineText p location
  | .method m => p.cyan ++ label m ++ p.reset ++ tagText p m ++ lineText p m.location

/-- The line of a feature with as many spaces as its nesting takes, and two more. -/
def entryLine (p : Palette) (e : Listed) : String :=
  indent (e.holders.length + 1) ++ headingText p e.heading

mutual

theorem ofFeature_eq (p : Palette) (holders : List Nat) (place : Nat) : ∀ f : Feature,
    ofFeature p (holders.length + 1) f = (Feature.listingOf holders place f).map (entryLine p)
  | .classLike name location children => by
    have hinside := lines_eq p (holders ++ [place]) (place + 1) children
    rw [List.length_append, List.length_singleton, Int.natCast_succ] at hinside
    rw [ofFeature, Feature.listingOf, List.map_cons, ← hinside]
    congr 1
    simp only [classLine, entryLine, headingText, String.append_assoc]
    rfl
  | .method m => by
    rw [ofFeature, Feature.listingOf, List.map_singleton]
    congr 1
    simp only [methodLine, entryLine, headingText, String.append_assoc]
    rfl

/-- The outline has one line for each feature in pre-order. -/
theorem lines_eq (p : Palette) (holders : List Nat) (place : Nat) : ∀ fs : List Feature,
    lines p (holders.length + 1) fs = (Feature.listingFrom holders place fs).map (entryLine p)
  | [] => by rw [lines]; rfl
  | f :: fs => by
    rw [lines, Feature.listingFrom, ofFeature_eq p holders place f, lines_eq p holders _ fs,
      List.map_append]

end

theorem lines_eq_listing (p : Palette) (fs : List Feature) :
    lines p 1 fs = (Feature.listing fs).map (entryLine p) :=
  lines_eq p [] 0 fs

end Outline

namespace Project

variable (palette : Palette) (publicOnly : Bool)

/-- What the section of one file adds to what has been printed. -/
theorem printSection_eq (count : Nat) (out : Printout) (f : SourceFile) :
    printSection palette publicOnly (count, out) f =
      (count + (f.shown publicOnly).length,
        out.append (joinLines (Report.sectionLines palette f.path (f.shown publicOnly)))) := by
  unfold printSection
  cases f.shown publicOnly with
  | nil =>
    show (count, out) = (count + 0, out.append "")
    rw [out.append_empty, Nat.add_zero]
  | cons first others =>
    simp only [Report.sectionLines, joinLines_cons, Printout.foldl_print, Printout.print_eq,
      Printout.append_append]

theorem foldl_printSection (files : List SourceFile) (count : Nat) (out : Printout) :
    files.foldl (printSection palette publicOnly) (count, out) =
      (count + (files.flatMap (·.shown publicOnly)).length,
        out.append (joinLines (files.flatMap fun f =>
          Report.sectionLines palette f.path (f.shown publicOnly)))) := by
  induction files generalizing count out with
  | nil =>
    show (count, out) = (count + 0, out.append "")
    rw [out.append_empty, Nat.add_zero]
  | cons f files ih =>
    rw [List.foldl_cons, printSection_eq, ih, Printout.append_append, List.flatMap_cons,
      List.flatMap_cons, joinLines_append, List.length_append, Nat.add_assoc]

theorem sectionLines_eq (path : String) (features : List Feature) :
    Report.sectionLines palette path features =
      if features.isEmpty then [] else (palette.bold ++ path ++ palette.reset) ::
        (Feature.listing features).map (Outline.entryLine palette) := by
  cases features with
  | nil => rfl
  | cons first others =>
    rw [← Outline.lines_eq_listing]
    rfl

/-- Sections are printed for the files of which something is shown. -/
theorem flatMap_sectionLines (files : List SourceFile) :
    (files.flatMap fun f => Report.sectionLines palette f.path (f.shown publicOnly)) =
      (files.filter fun f => !(f.shown publicOnly).isEmpty).flatMap fun f =>
        (palette.bold ++ f.path ++ palette.reset) ::
          (Feature.listing (f.shown publicOnly)).map (Outline.entryLine palette) := by
  induction files with
  | nil => rfl
  | cons f files ih =>
    rw [List.flatMap_cons, ih, sectionLines_eq]
    by_cases hshown : (f.shown publicOnly).isEmpty = true
    · rw [if_pos hshown, List.nil_append, List.filter_cons_of_neg (by simp [hshown])]
    · rw [if_neg hshown, List.filter_cons_of_pos (by simp [hshown]), List.flatMap_cons]

theorem flatMap_sectionLines_eq_nil {files : List SourceFile}
    (h : (files.flatMap (·.shown publicOnly)).length = 0) :
    (files.flatMap fun f => Report.sectionLines palette f.path (f.shown publicOnly)) = [] := by
  rw [List.flatMap_eq_nil_iff]
  intro f hf
  have hshown := List.flatMap_eq_nil_iff.mp (List.eq_nil_of_length_eq_zero h) f hf
  rw [hshown]
  rfl

theorem shown_features (p : Project) :
    (if publicOnly then Feature.publicOnly p.features else p.features) =
      p.files.flatMap (·.shown publicOnly) := by
  cases publicOnly with
  | false => rfl
  | true => exact Feature.publicOnly_flatMap p.files SourceFile.features

theorem printShort_eq (p : Project) (out : Printout) :
    let count := (p.files.flatMap (·.shown publicOnly)).length
    p.printShort palette publicOnly out = (count, out.append (joinLines
      (if count = 0 then ["No features found"] else p.files.flatMap fun f =>
        Report.sectionLines palette f.path (f.shown publicOnly)))) := by
  intro count
  rw [printShort, foldl_printSection, Nat.zero_add]
  show (count, if count = 0 then _ else _) = _
  split_ifs with hnone
  · rw [flatMap_sectionLines_eq_nil palette publicOnly hnone, Printout.print_eq,
      Printout.append_append]
    rfl
  · rfl

theorem printJson_eq (p : Project) (out : Printout) :
    let shown := p.files.flatMap (·.shown publicOnly)
    p.printJson publicOnly out = (shown.length,
      out.append (joinLines [(Json.array (Feature.toJsons shown)).render])) := by
  intro shown
  rw [printJson, shown_features, Printout.print_eq, joinLines_cons, show joinLines [] = "" from rfl,
    String.append_empty]

/-- What is printed line by line is the text of the report, and the answer is its count. -/
theorem printReport_eq_report (mode : Report.Mode) (p : Project) (out : Printout) :
    p.printReport palette mode publicOnly out =
      ((p.report palette mode publicOnly).count,
        out.append (p.report palette mode publicOnly).text) := by
  cases mode with
  | short =>
    have hreport : p.report palette .short publicOnly =
        Report.short palette (p.files.map fun f => (f.path, f.shown publicOnly)) := by
      rw [report, Report.make, List.map_map]
      rfl
    show p.printShort palette publicOnly out = _
    rw [printShort_eq, hreport]
    simp only [Report.short, List.flatMap_map]
  | json =>
    have hreport : p.report palette .json publicOnly =
        Report.json ((p.files.map fun f => (f.path, f.shown publicOnly)).flatMap (·.2)) := by
      rw [report, Report.make, List.map_map]
      rfl
    show p.printJson publicOnly out = _
    rw [printJson_eq, hreport]
    simp only [Report.json, List.flatMap_map]

/-- A section has the line of its path and at least one more. -/
theorem two_le_length_sectionLines {path : String} {features : List Feature} (h : features ≠ []) :
    2 ≤ (Report.sectionLines palette path features).length := by
  obtain ⟨first, others, rfl⟩ := List.exists_cons_of_ne_nil h
  have hfirst : 1 ≤ (Outline.ofFeature palette 1 first).length := by
    cases first <;> simp [Outline.ofFeature]
  simp only [Report.sectionLines, Outline.lines, List.length_cons, List.length_append]
  omega

/-- A report with sections never reads like one that has found nothing. -/
theorem joinLines_sectionLines_ne {files : List SourceFile}
    (h : (files.flatMap (·.shown publicOnly)).length ≠ 0) :
    joinLines (files.flatMap fun f => Report.sectionLines palette f.path (f.shown publicOnly)) ≠
      "No features found\n" := by
  intro heq
  obtain ⟨f, hf, hshown⟩ : ∃ f ∈ files, f.shown publicOnly ≠ [] := by
    by_contra hnone
    push Not at hnone
    exact h (by rw [List.flatMap_eq_nil_iff.mpr hnone, List.length_nil])
  have hsection : (Report.sectionLines palette f.path (f.shown publicOnly)).length ≤
      (files.flatMap fun f => Report.sectionLines palette f.path (f.shown publicOnly)).length := by
    obtain ⟨before, after, rfl⟩ := List.append_of_mem hf
    rw [List.flatMap_append, List.flatMap_cons, List.length_append, List.length_append]
    omega
  have hlines := length_le_count_joinLines
    (files.flatMap fun f => Report.sectionLines palette f.path (f.shown publicOnly))
  have htwo := @two_le_length_sectionLines palette f.path _ hshown
  have hone : "No features found\n".toList.count '\n' = 1 := by decide
  rw [heq] at hlines
  omega

end Project

/-- The two modes of a report show the same. Both answer with the number of features at the top that
are shown; what goes to the file is what goes to the standard output; the outline has a section for
each file of which something is shown, with a line for each feature in pre-order, and those features
are the ones of the JSON list. -/
theorem report_modes_agree (palette : Palette) (publicOnly : Bool) (p : Project) (out : Printout) :
    let shown := SourceFile.shown publicOnly
    let reported := if publicOnly then Feature.publicOnly p.features else p.features
    let count := (p.files.map fun f => (shown f).length).sum
    let sections := (p.files.filter fun f => !(shown f).isEmpty).flatMap fun f =>
      (palette.bold ++ f.path ++ palette.reset) ::
        (Feature.listing (shown f)).map (Outline.entryLine palette)
    let outline := joinLines (if count = 0 then ["No features found"] else sections)
    let list := joinLines [(Json.array (Feature.toJsons reported)).render]
    p.printReport palette .short publicOnly out = (count, out.append outline) ∧
    p.printReport palette .json publicOnly out = (count, out.append list) ∧
    (∀ mode, let printed := (p.printReport palette mode publicOnly { file := some "" }).2
      printed.file = some printed.stdout) ∧
    (p.files.flatMap fun f => (Feature.listing (shown f)).map Listed.nested) =
      (Feature.listing reported).map Listed.nested ∧
    (outline = "No features found\n" ↔ count = 0) := by
  intro shown reported count sections outline list
  have hcount : count = (p.files.flatMap shown).length := List.length_flatMap.symm
  have hreported : reported = p.files.flatMap shown := Project.shown_features publicOnly p
  have hsections : sections = p.files.flatMap fun f =>
      Report.sectionLines palette f.path (shown f) :=
    (Project.flatMap_sectionLines palette publicOnly p.files).symm
  have houtline : outline = joinLines (if (p.files.flatMap shown).length = 0 then
      ["No features found"] else p.files.flatMap fun f =>
        Report.sectionLines palette f.path (shown f)) := by
    rw [← hsections, ← hcount]
  refine ⟨?_, ?_, ?_, ?_, ?_⟩
  · rw [houtline, hcount]
    exact Project.printShort_eq palette publicOnly p out
  · have hlist : list =
        joinLines [(Json.array (Feature.toJsons (p.files.flatMap shown))).render] := by
      rw [← hreported]
    rw [hcount, hlist]
    exact Project.printJson_eq publicOnly p out
  · intro mode
    rw [Project.printReport_eq_report]
    simp [Printout.append]
  · rw [hreported, Feature.map_nested_listing_flatMap]
  · constructor
    · intro hnothing
      by_contra hsome
      rw [hcount] at hsome
      rw [houtline, if_neg hsome] at hnothing
      exact Project.joinLines_sectionLines_ne palette publicOnly hsome hnothing
    · intro hnone
      show joinLines (if count = 0 then _ else _) = _
      rw [if_pos hnone]
      rfl

end RubyOutline
