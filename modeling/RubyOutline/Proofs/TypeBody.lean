import RubyOutline.Proofs.Block
import RubyOutline.Proofs.ClassPath

namespace RubyOutline

namespace Node

/-- A chain of constants that is too long reaches as deep into the tree. -/
theorem exists_deep_of_segmentsWithin {root : Node} {links : Nat} {o : Occurrence} {fault : Fault}
    (ho : o ∈ root.places) (h : o.node.segmentsWithin links = .error fault)
    (hreach : fault.reach = .file) : ∃ deep ∈ root.places, deep.depth = o.depth + links := by
  induction links generalizing o with
  | zero => exact ⟨o, ho, rfl⟩
  | succ links ih =>
    obtain ⟨outer, name, hfirst, hlink⟩ | ⟨name, hname⟩ | ⟨found, hfound, hsubtree⟩ :=
      segmentsWithin_cases links o.node
    · rw [hlink] at h
      cases hrec : outer.segmentsWithin links <;> rw [hrec] at h <;> cases h
      obtain ⟨deep, hdeep, hdepth⟩ := ih (places_step ho hfirst) hrec
      refine ⟨deep, hdeep, ?_⟩
      rw [hdepth, Occurrence.depth, Occurrence.depth, List.length_cons]
      omega
    · rw [hname] at h
      cases h
    · rw [hfound] at h
      cases h
      rw [hsubtree] at hreach
      cases hreach

theorem methodName_error {n : Node} {fault : Fault} (h : n.methodName = .error fault) :
    fault.reach = .subtree := by
  rw [methodName] at h
  split at h
  · exact nameAt_error h
  · exact nameAt_error h

/-- A fault that costs the whole file is a chain of constants in the first child. -/
theorem exists_chain_of_declared {n : Node} {fault : Fault} (h : n.declared = .error fault)
    (hreach : fault.reach = .file) :
    ∃ name : Node, n.children[0]? = some (.node name) ∧
      name.segmentsWithin maxLinks = .error fault := by
  unfold declared at h
  split at h
  case h_1 => cases h
  case h_2 =>
    rw [typeName] at h
    cases hseg : n.typeSegments <;> rw [hseg] at h <;> cases h
    obtain ⟨name, hfirst, hname⟩ | ⟨found, hfound, hsubtree⟩ := n.typeSegments_cases
    · exact ⟨name, hfirst, hname ▸ hseg⟩
    · rw [hfound] at hseg
      cases hseg
      rw [hsubtree] at hreach
      cases hreach
  case h_3 =>
    cases hname : n.methodName <;> rw [hname] at h <;> cases h
    rw [methodName_error hname] at hreach
    cases hreach
  case h_4 =>
    cases hname : n.methodName with
    | error e =>
      rw [hname] at h
      cases h
      rw [methodName_error hname] at hreach
      cases hreach
    | ok name =>
      cases hreceiver : n.receiverName <;> rw [hname, hreceiver] at h <;> cases h
      obtain ⟨receiver, hfirst, ⟨-, hself⟩ | ⟨-, hconstant⟩⟩ | ⟨found, hfound, hother⟩ :=
        n.receiverName_cases
      · rw [hself] at hreceiver
        cases hreceiver
      · rw [hconstant] at hreceiver
        refine ⟨receiver, hfirst, ?_⟩
        cases hseg : receiver.segmentsWithin maxLinks <;> rw [hseg] at hreceiver <;> cases hreceiver
        rfl
      · rw [hfound] at hreceiver
        cases hreceiver
        exact absurd hreach hother

/-- In a tree that stays within the depth limit no chain of constants is too long. -/
theorem isFinished_of_shallow {root : Node} (path : String)
    (h : ∀ o ∈ root.places, o.depth < Fault.maxDepth) :
    (root.walk path []).isFinished = true := by
  rw [isFinished_walk_iff]
  intro o ho
  have hplace := (List.mem_filter.mp ho).1
  rw [Occurrence.overflows, Occurrence.fault?, Occurrence.declared,
    if_neg (Nat.not_le.mpr (h o hplace))]
  cases hdeclared : o.node.declared with
  | ok made => rfl
  | error fault =>
    by_contra hover
    have hreach : fault.reach = .file := by simpa using hover
    obtain ⟨name, hfirst, hname⟩ := exists_chain_of_declared hdeclared hreach
    obtain ⟨deep, hdeep, hdepth⟩ :=
      exists_deep_of_segmentsWithin (places_step hplace hfirst) hname hreach
    have hlimit := h deep hdeep
    rw [hdepth] at hlimit
    simp only [Fault.maxDepth, maxLinks] at hlimit
    omega

end Node

namespace Scope

variable {body n : Node} {outer : Scope}

theorem isSingleton_body (hbody : body.kind = .group) :
    Scope.isSingleton (body :: n :: outer) = (n.kind == .singletonClass) := by
  rw [Scope.isSingleton, hbody]
  rfl

theorem filter_isType_body (hbody : body.kind = .group) :
    (body :: n :: outer).reverse.filter (·.kind.isType) =
      (n :: outer).reverse.filter (·.kind.isType) := by
  rw [List.filter_reverse, List.filter_cons_of_neg (by simp [hbody, Kind.isType]),
    List.filter_reverse]

end Scope

namespace ParseTree

variable {source : List UInt8} {statement : Bool} {cst t : ParseTree} {tree : Node}
  {o : Occurrence}

/-- The node of a singleton class is one, and those of a class and of a module are types. -/
theorem kind_of_isTypeLike (htree : lower source statement [] cst = some tree)
    (ho : o ∈ tree.places) (ht : cst.at? o.node.identity = some t) (htype : t.isTypeLike = true) :
    o.node.kind = .singletonClass ∧ t.type = "singleton_class" ∨
      o.node.kind.isType = true ∧ t.type ≠ "singleton_class" := by
  obtain ⟨_, hlower⟩ := (Origin.of_place htree ho).lower ht
  exact (lower_of_isTypeLike htype hlower).2

/-- A statement in the body of a class, a module or a singleton class stands in a group, and the
group stands in the node of the declaration. -/
theorem exists_place_in_block {block : Block} {j : Nat} {m : ParseTree} {n : Node}
    (htree : lower source statement [] cst = some tree) (ho : o ∈ tree.places)
    (ht : cst.at? o.node.identity = some t) (htype : t.isTypeLike = true)
    (hblock : t.block? o.node.identity = some block) (hm : block.children[j]? = some m)
    (hstatement : block.isStatement m = true)
    (hn : lower source true (j :: block.path) m = some n) :
    ∃ (way : List Nat) (body : Node), ⟨way, body :: o.node :: o.scope, n⟩ ∈ tree.places ∧
      body.kind = .group ∧
      body.children = lowerWhere source block.isStatement true block.path 0 block.children := by
  obtain ⟨_, hlower⟩ := (Origin.of_place htree ho).lower ht
  obtain ⟨hbody, -⟩ := lower_of_isTypeLike htype hlower
  obtain ⟨body, hfound, hgroup, hchildren⟩ :=
    @body?_of_block? source _ _ _ _ hblock (List.mem_of_getElem? hm) hstatement
  have hmem : .node n ∈ body.children := by
    rw [hchildren, mem_lowerWhere]
    exact ⟨j, m, n, hm, hstatement, by rwa [Nat.zero_add], rfl⟩
  rw [hfound] at hbody
  obtain ⟨k, hbodyPlace⟩ := Node.places_of_mem ho hbody
  obtain ⟨l, hplace⟩ := Node.places_of_mem hbodyPlace hmem
  exact ⟨_, body, hplace, hgroup, hchildren⟩

end ParseTree

/-- A method node with a name, at a place around which nothing is malformed, is listed. -/
theorem Extraction.exists_listed_of_methodDef {name : String} {root : Node} {x : Occurrence}
    (path : String) (hdepth : ∀ a ∈ root.places, a.depth < Fault.maxDepth)
    (hx : x ∈ root.places) (hscope : ∀ a ∈ x.scope, a.isRejected = false)
    (hkind : x.node.kind = .methodDef) (hname : x.node.nameAt 0 = .ok name) :
    ∃ (i : Nat) (groups : List (List String)), root.declarations[i]? = some x ∧
      List.Forall₂ (fun n group => n.typeSegments = .ok group)
        (x.scope.reverse.filter (·.kind.isType)) groups ∧
      (Feature.listing (extract path (.node root)).features)[i]? = some
        ⟨x.types.map fun t => Occurrence.placeIn root.declarations t.way,
          .method {
            name
            location := Location.render path x.node.line
            className := Qualified.join groups.flatten
            static := x.scope.isSingleton
            visibility := x.node.visibilityIn x.scope }⟩ := by
  have hrole : x.node.kind.role = .instanceMethod := by rw [hkind, Kind.role]
  have hmethodName : x.node.methodName = .ok name := by
    rw [Node.methodName, if_neg (by simp [hkind]), hname]
  have hdeclared : x.declared = .ok (some name) := by
    rw [Occurrence.declared, if_neg (Nat.not_le.mpr (hdepth x hx)), Node.declared, hrole,
      hmethodName]
    rfl
  have hvisited : x ∈ root.visited :=
    List.mem_filter.mpr ⟨hx, Occurrence.isVisited_iff.mpr ⟨Nat.le_of_lt (hdepth x hx), hscope⟩⟩
  have hmem : x ∈ root.declarations := by
    refine List.mem_filter.mpr ⟨hvisited, ?_⟩
    rw [Occurrence.name?, hdeclared]
    rfl
  have hfinished := Node.isFinished_of_shallow path hdepth
  obtain ⟨groups, hgroups, hsegments⟩ :=
    (Node.scope_resolved ((root.isFinished_walk_iff path).mp hfinished) hvisited).segments
  obtain ⟨i, hi⟩ := List.getElem?_of_mem hmem
  obtain ⟨⟨holders, heading⟩, hlisted, hshows⟩ := exists_listed hfinished hi
  refine ⟨i, groups, hi, hgroups, ?_⟩
  have hholders := hshows.holders
  have hheading := hshows.heading
  rw [Node.heading, hrole, Node.method_eq hsegments, hmethodName, Node.ownerSegments,
    if_neg (by simp [hkind])] at hheading
  cases hheading
  cases hholders
  rw [hlisted, hrole]
  rfl

/-- The record of a method that is written straight in the body of a class, a module or a singleton
class. The declaration may stand anywhere in a tree that stays within the depth limit, as long as
its own name can be resolved and nothing around it is malformed. The statements of the body before
the method decide its visibility. -/
theorem method_in_type_body (path source : String) (cst declaration m : ParseTree) (tree : Node)
    (place : Identity) (o : Occurrence) (block : ParseTree.Block) (j : Nat) (name : String)
    (htree : cst.toNode? source = some tree)
    (hdepth : ∀ a ∈ tree.places, a.depth < Fault.maxDepth)
    (hdeclaration : cst.at? place = some declaration) (htype : declaration.isTypeLike = true)
    (ho : o ∈ tree.places) (hplace : o.node.identity = place)
    (hresolved : declaration.type ≠ "singleton_class" → ∃ own, o.node.typeSegments = .ok own)
    (haround : ∀ a ∈ o.scope, a.isRejected = false)
    (hblock : declaration.block? place = some block) (hm : block.children[j]? = some m)
    (hstatement : block.isStatement m = true) (hmethod : m.type = "method")
    (hname : (m.field? "name").map (·.text (Utf8.encode source)) = some name) (hne : name ≠ "") :
    ∃ (i : Nat) (x : Occurrence) (groups : List (List String)),
      tree.declarations[i]? = some x ∧ x.node.identity = j :: block.path ∧
      List.Forall₂ (fun n group => n.typeSegments = .ok group)
        ((if declaration.type = "singleton_class" then o.scope
          else o.node :: o.scope).reverse.filter (·.kind.isType)) groups ∧
      (Feature.listing (extract path (.node tree)).features)[i]? = some
        ⟨x.types.map fun t => Occurrence.placeIn tree.declarations t.way,
          .method {
            name
            location := Location.render path (m.row + 1)
            className := Qualified.join groups.flatten
            static := declaration.type == "singleton_class"
            visibility := (((block.children.take j).filter block.isStatement).reverse.findSome?
              (ParseTree.visibility? (Utf8.encode source))).getD .pub }⟩ := by
  subst hplace
  obtain ⟨n, hn, hmethodDef, hnameAt, hline⟩ :=
    @ParseTree.lower_of_method (Utf8.encode source) true (j :: block.path) _ _ hmethod hname hne
  obtain ⟨way, body, hx, hgroup, hchildren⟩ :=
    ParseTree.exists_place_in_block htree ho hdeclaration htype hblock hm hstatement hn
  have hkind := ParseTree.kind_of_isTypeLike htree ho hdeclaration htype
  have hstatic : (o.node.kind == .singletonClass) = (declaration.type == "singleton_class") := by
    rcases hkind with ⟨hsingleton, hsame⟩ | ⟨hisType, hother⟩
    · rw [hsingleton, hsame]
      rfl
    · have hne : o.node.kind ≠ .singletonClass := by
        intro hsingleton
        rw [hsingleton] at hisType
        cases hisType
      rw [beq_eq_false_iff_ne.mpr hne, beq_eq_false_iff_ne.mpr hother]
  have hscope : ∀ a ∈ body :: o.node :: o.scope, a.isRejected = false := by
    rw [List.forall_mem_cons, List.forall_mem_cons]
    refine ⟨Node.isRejected_of_transparent (by rw [hgroup, Kind.role]), ?_, haround⟩
    rcases hkind with ⟨hsingleton, -⟩ | ⟨hisType, hother⟩
    · exact Node.isRejected_of_transparent (by rw [hsingleton, Kind.role])
    · obtain ⟨own, hown⟩ := hresolved hother
      exact Node.isRejected_of_typeSegments hisType hown
  obtain ⟨i, groups, hi, hgroups, hlisted⟩ :=
    Extraction.exists_listed_of_methodDef path hdepth hx hscope hmethodDef hnameAt
  refine ⟨i, _, groups, hi, ParseTree.lower_identity hn, ?_, ?_⟩
  · rw [Scope.filter_isType_body hgroup] at hgroups
    rcases hkind with ⟨hsingleton, hsame⟩ | ⟨-, hother⟩
    · rw [if_pos hsame]
      rwa [List.filter_reverse, List.filter_cons_of_neg (by simp [hsingleton, Kind.isType]),
        ← List.filter_reverse] at hgroups
    · rwa [if_neg hother]
  · rw [hlisted, ParseTree.visibilityIn_block hchildren hm hstatement hn,
      Scope.isSingleton_body hgroup, hstatic, hline]
    rfl

/-- A class with a singleton class in it that has a private method. -/
def singletonText : String := "class A\nclass << self\nprivate # all\ndef go\nend\nend\nend\n"

/-- Its parse tree: the class has a body, and the statements of the singleton class stand straight
under it. -/
def singletonTree : ParseTree :=
  let method : ParseTree :=
    { type := "method", row := 3
      children := [{ type := "identifier", start := 40, stop := 42, field := some "name" }] }
  let singleton : ParseTree :=
    { type := "singleton_class", row := 1
      children := [
        { type := "self", row := 1, field := some "value" },
        { type := "identifier", start := 22, stop := 29, row := 2 },
        { type := "comment", start := 30, stop := 35, row := 2 }, method] }
  { type := "program"
    children := [
      { type := "class"
        children := [
          { type := "constant", start := 6, stop := 7, field := some "name" },
          { type := "body_statement", row := 1, field := some "body", children := [singleton] }] }] }

def singletonNode : Node :=
  let method : Node := ⟨[3, 0, 1, 0], .methodDef, [.name "go", .absent, .absent], 4, 0⟩
  let singleton : Node := ⟨[0, 1, 0], .singletonClass, [.node ⟨[0, 0, 1, 0], .selfRef, [], 2, 0⟩,
    .node ⟨[4, 0, 1, 0], .group, [
      .node ⟨[1, 0, 1, 0], .call, [.absent, .name "private"], 3, 0⟩, .node method], 3, 0⟩], 2, 0⟩
  ⟨[], .group, [.node ⟨[0], .classDef, [.node ⟨[0, 0], .constant, [.absent, .name "A"], 1, 0⟩,
    .absent, .node ⟨[1, 0], .group, [.node singleton], 2, 0⟩], 1, 0⟩], 1, 0⟩

theorem method_in_type_body_singletonTree :
    singletonTree.toNode? singletonText = some singletonNode ∧
    (∀ a ∈ singletonNode.places, a.depth < Fault.maxDepth) ∧
    ∃ o ∈ singletonNode.places, o.node.identity = [0, 1, 0] ∧
      (∀ a ∈ o.scope, a.isRejected = false) ∧
      ∃ (i : Nat) (x : Occurrence) (groups : List (List String)),
        singletonNode.declarations[i]? = some x ∧ x.node.identity = [3, 0, 1, 0] ∧
        List.Forall₂ (fun n group => n.typeSegments = .ok group)
          (o.scope.reverse.filter (·.kind.isType)) groups ∧
        (Feature.listing (extract "a.rb" (.node singletonNode)).features)[i]? = some
          ⟨x.types.map fun t => Occurrence.placeIn singletonNode.declarations t.way,
            .method ⟨"go", "a.rb:4", Qualified.join groups.flatten, true, .priv⟩⟩ := by
  have hdepth : ∀ a ∈ singletonNode.places, a.depth < Fault.maxDepth := by decide
  obtain ⟨o, ho⟩ : ∃ o, singletonNode.places[4]? = some o := ⟨_, rfl⟩
  have hmem := List.mem_of_getElem? ho
  cases ho
  refine ⟨rfl, hdepth, _, hmem, rfl, by decide, ?_⟩
  exact method_in_type_body "a.rb" singletonText singletonTree _ _ singletonNode [0, 1, 0] _ _ 3
    "go" rfl hdepth rfl rfl hmem rfl (fun h => absurd rfl h) (by decide) rfl rfl rfl rfl rfl
    (by decide)

end RubyOutline
