import RubyOutline.Proofs.BuilderState
import RubyOutline.Proofs.WalkListing

namespace RubyOutline

/-- An entry of a listing stands for a declaration: it has the declaration's name and line, and the
entries that hold it are those of the classes and modules around the declaration. -/
structure Listed.StandsFor (path : String) (declarations : List Occurrence) (f : Listed)
    (o : Occurrence) : Prop where
  isClass : f.heading.isClass = o.node.kind.isType
  name : o.name? = some f.heading.name
  location : f.heading.location = Location.render path o.node.line
  holders : f.holders = o.types.map fun t => Occurrence.placeIn declarations t.way

theorem Listed.Shows.standsFor {path : String} {declarations : List Occurrence} {f : Listed}
    {o : Occurrence} (h : f.Shows path (Occurrence.placeIn declarations) o) :
    f.StandsFor path declarations o where
  isClass := by
    rw [Node.isType_of_heading h.heading]
    rfl
  name := h.name
  location := Node.heading_location h.heading
  holders := h.holders

/-- A visited declaration is listed or has a fault, and never both. -/
theorem Node.mem_declarations_iff {root : Node} {o : Occurrence} (h : o ∈ root.visited)
    (hrole : o.node.kind.role ≠ .transparent) : o ∈ root.declarations ↔ o.fault? = none := by
  rw [declarations, List.mem_filter, Occurrence.fault?]
  constructor
  · rintro ⟨-, hname⟩
    rw [Occurrence.name?] at hname
    cases hdeclared : o.declared with
    | error fault => simp [hdeclared] at hname
    | ok made => rfl
  · intro hfault
    refine ⟨h, ?_⟩
    rw [Occurrence.name?]
    cases hdeclared : o.declared with
    | error fault => simp [hdeclared] at hfault
    | ok made =>
      rw [Occurrence.declared] at hdeclared
      split at hdeclared
      · cases hdeclared
      · exact isSome_of_declared hrole hdeclared

/-- Whatever a builder has built before, and as long as no chain of constants is too long for it:
its features are in pre-order the declarations among the visited places, each with its own name and
line and held by the features of the classes and modules around it; its diagnostics are in
pre-order the faults of the visited places; each visited declaration is one or the other; and no
place counts twice. -/
theorem build_accounts_for_declarations (b : Builder) (root : Node)
    (hfinished : (root.walk b.path []).isFinished = true) :
    List.Forall₂ (Listed.StandsFor b.path root.declarations)
      (Feature.listing (b.build (.node root)).1.features) root.declarations ∧
    (b.build (.node root)).1.diagnostics =
      (root.visited.filterMap Occurrence.fault?).map (Diagnostic.ofFault b.path) ∧
    (∀ o ∈ root.visited, o.node.kind.role ≠ .transparent →
      (o ∈ root.declarations ↔ o.fault? = none)) ∧
    (root.visited.map Occurrence.way).Nodup := by
  rw [Builder.build_eq_extract]
  refine ⟨?_, Extraction.diagnostics_eq hfinished, fun o ho hrole => ?_, ?_⟩
  · exact (Extraction.listing_shows hfinished).imp fun f o h => h.standsFor
  · exact Node.mem_declarations_iff ho hrole
  · exact (Node.occurrences_way_nodup [] [] root).sublist (List.filter_sublist.map _)

/-- A class with a method that has a module in its body and with a method on an unknown receiver
that has a method in its body; then a class without a name, with a method. -/
def mixedFates : Node :=
  let constant (identity : Nat) (name : String) (line : Int) : Child :=
    .node ⟨[identity], .constant, [.absent, .name name], line, 0⟩
  let inner : Node := ⟨[9], .methodDef, [.name "inner", .absent, .absent], 6, 0⟩
  let lost : Node := ⟨[11], .methodDef, [.name "lost", .absent, .absent], 9, 0⟩
  ⟨[0], .group, [
    .node ⟨[1], .classDef, [constant 2 "A" 1, .absent, .node ⟨[3], .group, [
      .node ⟨[4], .methodDef, [.name "run", .absent,
        .node ⟨[5], .moduleDef, [constant 6 "B" 3, .absent], 3, 0⟩], 2, 0⟩,
      .node ⟨[7], .singletonDef, [.node ⟨[8], .call, [.absent, .name "x"], 5, 0⟩, .name "go",
        .absent, .node inner], 5, 0⟩], 2, 0⟩], 1, 0⟩,
    .node ⟨[10], .classDef, [.absent, .absent, .node lost], 8, 0⟩], 1, 0⟩

theorem build_accounts_for_mixedFates :
    let b : Builder := ⟨"a.rb", [⟨.malformed, "expected a constant", "a.rb:7"⟩]⟩
    (mixedFates.walk b.path []).isFinished = true ∧
    List.Forall₂ (Listed.StandsFor b.path mixedFates.declarations)
      (Feature.listing (b.build (.node mixedFates)).1.features) mixedFates.declarations ∧
    (b.build (.node mixedFates)).1.diagnostics =
      (mixedFates.visited.filterMap Occurrence.fault?).map (Diagnostic.ofFault b.path) ∧
    mixedFates.declarations.map Occurrence.way = [[0], [0, 2, 0], [2, 0, 2, 0], [3, 1, 2, 0]] ∧
    mixedFates.visited.filterMap (fun o => o.fault?.map fun _ => o.way) = [[1, 2, 0], [1]] := by
  have h := build_accounts_for_declarations
    ⟨"a.rb", [⟨.malformed, "expected a constant", "a.rb:7"⟩]⟩ mixedFates (by decide)
  exact ⟨by decide, h.1, h.2.1, by decide +kernel, by decide +kernel⟩

end RubyOutline
