import RubyOutline.Proofs.ClassPath
import RubyOutline.Proofs.ConstantChain
import RubyOutline.Proofs.QualifiedNames
import RubyOutline.Proofs.ReportModes

namespace RubyOutline

namespace Location

theorem afterLastColon_append (before : List Char) {after : List Char} (h : ':' ∉ after) :
    afterLastColon (before ++ ':' :: after) = after := by
  have hstop : ((before ++ ':' :: after).reverse).takeWhile (· != ':') = after.reverse := by
    rw [List.reverse_append, List.reverse_cons, List.append_assoc, List.singleton_append]
    have hall : ∀ c ∈ after.reverse, (c != ':') = true := by
      intro c hc
      have hne : c ≠ ':' := fun heq => h (heq ▸ List.mem_reverse.mp hc)
      simpa using hne
    rw [List.takeWhile_append_of_pos hall]
    simp
  rw [afterLastColon, hstop, List.reverse_reverse]

theorem colon_notMem_toString (line : Int) : ':' ∉ (toString line).toList := by
  have hdigits (n : Nat) : ':' ∉ Nat.toDigits 10 n := by
    intro hmem
    have hdigit := Nat.isDigit_of_mem_toDigits (by decide) (by decide) hmem
    exact absurd hdigit (by decide)
  rw [Int.toString_eq_repr, Int.repr_eq_if]
  split_ifs
  · rw [Nat.toList_repr]
    exact hdigits _
  · rw [String.toList_append, Nat.toList_repr, List.mem_append, not_or]
    exact ⟨by decide, hdigits _⟩

/-- The line of a rendered location is read back, whatever the path. -/
theorem lineOf_render (path : String) (line : Int) :
    lineOf (render path line) = toString line := by
  have htext : (render path line).toList = path.toList ++ ':' :: (toString line).toList := by
    simp [render]
  rw [lineOf, htext, afterLastColon_append _ (colon_notMem_toString line), String.ofList_toList]

end Location

namespace Node

/-- The names that a declaration gives to classes, modules and receivers: the segments of a class or
module, and the name of the constant that a singleton method is declared on. -/
def givenNames (n : Node) : List String :=
  if n.kind.isType then n.typeSegments.toOption.getD []
  else if n.kind = .singletonDef then (n.receiverName.toOption.bind id).toList
  else []

/-- No name that stands in front of a method anywhere in the tree holds a colon. -/
def HasPlainNames (root : Node) : Prop :=
  ∀ o ∈ root.places, ∀ name ∈ o.node.givenNames, ':' ∉ name.toList

instance (root : Node) : Decidable root.HasPlainNames :=
  inferInstanceAs (Decidable (∀ o ∈ root.places, ∀ name ∈ o.node.givenNames, ':' ∉ name.toList))

theorem mem_givenNames_of_typeSegments {n : Node} {segments : List String} {name : String}
    (hkind : n.kind.isType = true) (h : n.typeSegments = .ok segments) (hname : name ∈ segments) :
    name ∈ n.givenNames := by
  rw [givenNames, if_pos hkind, h]
  exact hname

theorem mem_givenNames_of_onConstant {n : Node} {r : String} (h : n.OnConstant r) :
    r ∈ n.givenNames := by
  obtain ⟨hkind, receiver, segments, hfirst, hconstant, hsegments, hlast⟩ := h
  have hname : n.receiverName = .ok (some r) := by
    rw [List.head?_eq_getElem?] at hfirst
    have hself : receiver.kind ≠ .selfRef := by
      rw [hconstant]
      decide
    rw [receiverName, childAt, hfirst]
    simp only [bind, Except.bind, if_neg hself, if_pos hconstant, hsegments, lastSegment,
      List.getLastD_eq_getLast?, hlast]
    rfl
  rw [givenNames, if_neg (by rw [hkind]; decide), if_pos hkind, hname]
  exact List.mem_singleton.mpr rfl

/-- Every node around a place has a place itself. -/
theorem exists_place_of_mem_scope {root n : Node} {o : Occurrence} (ho : o ∈ root.places)
    (hn : n ∈ o.scope) : ∃ a ∈ root.places, a.node = n := by
  have hmem : n ∈ o.around.map Occurrence.node := by
    rw [Occurrence.around, Occurrence.map_node_aroundIn (places_length ho)]
    exact List.mem_reverse.mpr hn
  obtain ⟨a, ha, rfl⟩ := List.mem_map.mp hmem
  exact ⟨a, mem_places_of_mem_around ho ha, rfl⟩

end Node

namespace Scope

/-- A class or module adds its segments behind those of the scope around it. -/
theorem segments_cons {n : Node} {outer : Scope} {names : List String}
    (h : Scope.segments (n :: outer) = .ok names) :
    ∃ around, Scope.segments outer = .ok around ∧
      ((n.kind.isType = true ∧ ∃ own, n.typeSegments = .ok own ∧ names = around ++ own) ∨
        (n.kind.isType = false ∧ names = around)) := by
  rw [Scope.segments] at h
  cases houter : Scope.segments outer with
  | error fault =>
    rw [houter] at h
    cases h
  | ok around =>
    rw [houter] at h
    refine ⟨around, rfl, ?_⟩
    cases hkind : n.kind.isType with
    | false =>
      simp only [bind, Except.bind, hkind] at h
      cases h
      exact .inr ⟨rfl, rfl⟩
    | true =>
      simp only [bind, Except.bind, hkind, if_true] at h
      cases hown : n.typeSegments with
      | error fault =>
        rw [hown] at h
        cases h
      | ok own =>
        rw [hown] at h
        cases h
        exact .inl ⟨rfl, own, rfl, rfl⟩

/-- The last segment of a scope is that of its innermost class or module. -/
theorem getLast?_segments {scope : Scope} {names : List String}
    (h : Scope.segments scope = .ok names) :
    (names = [] ∧ ∀ n ∈ scope, n.kind.isType = false) ∨
    ∃ (t : Node) (own : List String), scope.find? (·.kind.isType) = some t ∧
      t.typeSegments = .ok own ∧ own.getLast? = names.getLast? ∧ names ≠ [] := by
  induction scope generalizing names with
  | nil =>
    cases h
    exact .inl ⟨rfl, by simp⟩
  | cons n outer ih =>
    obtain ⟨around, houter, ⟨hkind, own, hown, rfl⟩ | ⟨hkind, rfl⟩⟩ := segments_cons h
    · have hne := Node.typeSegments_ne_nil hown
      refine .inr ⟨n, own, List.find?_cons_of_pos hkind, hown, ?_, by simp [hne]⟩
      rw [List.getLast?_append_of_ne_nil _ hne]
    · rw [List.find?_cons_of_neg (by simp [hkind]), List.forall_mem_cons]
      exact (ih houter).imp_left fun ⟨hnil, htypes⟩ => ⟨hnil, hkind, htypes⟩

/-- Every segment of a scope belongs to a class or module of the scope. -/
theorem mem_segments {scope : Scope} {names : List String} {name : String}
    (h : Scope.segments scope = .ok names) (hname : name ∈ names) :
    ∃ t ∈ scope, t.kind.isType = true ∧ ∃ own, t.typeSegments = .ok own ∧ name ∈ own := by
  induction scope generalizing names with
  | nil =>
    cases h
    simp at hname
  | cons n outer ih =>
    have hinside (around : List String) (houter : Scope.segments outer = .ok around)
        (hmem : name ∈ around) : ∃ t ∈ n :: outer, t.kind.isType = true ∧
          ∃ own, t.typeSegments = .ok own ∧ name ∈ own := by
      obtain ⟨t, ht, htype⟩ := ih houter hmem
      exact ⟨t, List.mem_cons_of_mem _ ht, htype⟩
    obtain ⟨around, houter, ⟨hkind, own, hown, rfl⟩ | ⟨-, rfl⟩⟩ := segments_cons h
    · rcases List.mem_append.mp hname with haround | hmem
      · exact hinside around houter haround
      · exact ⟨n, by simp, hkind, own, hown, hmem⟩
    · exact hinside names houter hname

end Scope

/-- What a method is shown to belong to: the constant that it is declared on, by the last segment of
that constant; or else the innermost class or module around it, by its last segment; or nothing. -/
inductive Occurrence.Owner (o : Occurrence) : Option String → Prop
  | receiver {r : String} : o.node.OnConstant r → Owner o (some r)
  | enclosing {t : Node} {segments : List String} {last : String} : o.node.OnOwnPath →
    o.scope.find? (·.kind.isType) = some t → t.typeSegments = .ok segments →
    segments.getLast? = some last → Owner o (some last)
  | top : o.node.OnOwnPath → (∀ n ∈ o.scope, n.kind.isType = false) → Owner o none

namespace Outline

/-- A method with its owner in front of it, where it has one. -/
def ownedName (m : Method) : Option String → String
  | none => m.name
  | some owner => owner ++ (if m.static then "." else "#") ++ m.name

/-- What follows the label of a method without colours. -/
def plainTags (m : Method) : String :=
  match m.static, m.visibility with
  | false, .pub => ""
  | true, .pub => " [static]"
  | false, v => " [" ++ v.label ++ "]"
  | true, v => " [static, " ++ v.label ++ "]"

theorem tagText_plain (m : Method) : tagText .plain m = plainTags m := by
  obtain ⟨name, location, className, static, visibility⟩ := m
  cases static <;> cases visibility <;> rfl

theorem label_eq (m : Method) :
    label m = ownedName m (if Qualified.simpleName m.className = "" then none
      else some (Qualified.simpleName m.className)) := by
  have howner : (if m.className.isEmpty then "" else Qualified.simpleName m.className) =
      Qualified.simpleName m.className := by
    by_cases hempty : m.className = ""
    · rw [hempty]
      decide
    · simp [hempty]
  rw [label, howner]
  by_cases hsimple : Qualified.simpleName m.className = "" <;> simp [hsimple, ownedName]

/-- Where no segment of the class path holds a colon, the last of them is shown. -/
theorem label_of_segments {m : Method} {segments : List String} {last : String}
    (hclass : m.className = Qualified.join segments)
    (hplain : ∀ segment ∈ segments, ':' ∉ segment.toList)
    (hlast : segments.getLast? = some last) (hne : last ≠ "") :
    label m = ownedName m (some last) := by
  have hsegments : segments ≠ [] := by
    rintro rfl
    cases hlast
  have hseparable : Qualified.Separable (segments.map String.toList) := by
    apply Qualified.separable_of_plain
    rwa [List.forall_mem_map]
  have hsimple : Qualified.simpleName m.className = last := by
    have hboth := hlast.symm.trans (Qualified.getLast?_eq_simpleName hsegments hseparable)
    rw [hclass, Option.some.inj hboth]
  rw [label_eq, hsimple, if_neg hne]

theorem lineText_plain (path : String) (line : Int) :
    lineText .plain (Location.render path line) = " :" ++ toString line := by
  have hspace : " " ++ "" ++ ":" = " :" := by decide
  rw [lineText, Location.lineOf_render]
  show " " ++ "" ++ ":" ++ toString line ++ "" = _
  rw [hspace, String.append_empty]

/-- The text of a heading in the plain outline, up to the line of its declaration. -/
def plainText : Heading → String
  | .classLike name _ => name
  | .method m => label m ++ plainTags m

theorem entryLine_plain {path : String} {line : Int} {e : Listed}
    (h : e.heading.location = Location.render path line) :
    entryLine .plain e =
      indent (e.holders.length + 1) ++ plainText e.heading ++ " :" ++ toString line := by
  obtain ⟨holders, heading⟩ := e
  rw [entryLine, String.append_assoc, String.append_assoc, ← lineText_plain path, ← h]
  congr 1
  cases heading with
  | classLike name location =>
    show "" ++ name ++ "" ++ lineText .plain location = name ++ lineText .plain location
    rw [String.empty_append, String.append_empty]
  | method m =>
    show "" ++ label m ++ "" ++ tagText .plain m ++ lineText .plain m.location =
      label m ++ plainTags m ++ lineText .plain m.location
    rw [String.empty_append, String.append_empty, tagText_plain]

end Outline

/-- The class path of a listed method: the segments around it, where the last gives way to the
constant that the method is declared on. -/
theorem exists_classPath {path : String} {root : Node} {i : Nat} {o : Occurrence}
    {holders : List Nat} {m : Method} (ho : root.declarations[i]? = some o)
    (h : (Feature.listing (extract path (.node root)).features)[i]? =
      some ⟨holders, .method m⟩) :
    ∃ names owner, Scope.segments o.scope = .ok names ∧ m.className = Qualified.join owner ∧
      ((o.node.OnOwnPath ∧ owner = names) ∨
        ∃ r, o.node.OnConstant r ∧ owner = names.dropLast ++ [r]) := by
  obtain ⟨o', ho', hshows⟩ := Extraction.exists_declaration h
  obtain rfl : o = o' := Option.some.inj (ho.symm.trans ho')
  obtain ⟨groups, -, hsegments⟩ := exists_groups_of_shows (Extraction.isFinished_of_listed h)
    (List.mem_of_getElem? ho) hshows
  obtain ⟨hrole, hmethod⟩ := Node.method_of_heading hshows.heading
  have hclass := (Node.method_ok hmethod).2.1
  rw [Node.methodClass_eq hsegments] at hclass
  cases howner : o.node.ownerSegments groups.flatten with
  | error fault =>
    rw [howner] at hclass
    cases hclass
  | ok owner =>
    rw [howner] at hclass
    exact ⟨groups.flatten, owner, hsegments, (Except.ok.inj hclass).symm,
      Node.ownerSegments_ok hrole howner⟩

/-- Where no name holds a colon, a method is shown with its owner. -/
theorem Node.HasPlainNames.exists_owner {path : String} {root : Node} {i : Nat} {o : Occurrence}
    {holders : List Nat} {m : Method} (hplain : root.HasPlainNames)
    (ho : root.declarations[i]? = some o)
    (h : (Feature.listing (extract path (.node root)).features)[i]? =
      some ⟨holders, .method m⟩) :
    ∃ owner, o.Owner owner ∧ Outline.label m = Outline.ownedName m owner := by
  have hplace : o ∈ root.places :=
    (List.mem_filter.mp (List.mem_filter.mp (List.mem_of_getElem? ho)).1).1
  obtain ⟨names, owner, hnames, hclass, howner⟩ := exists_classPath ho h
  have haround : ∀ name ∈ names, ':' ∉ name.toList := by
    intro name hname
    obtain ⟨t, ht, hkind, own, hown, hmem⟩ := Scope.mem_segments hnames hname
    obtain ⟨a, ha, rfl⟩ := Node.exists_place_of_mem_scope hplace ht
    exact hplain a ha name (Node.mem_givenNames_of_typeSegments hkind hown hmem)
  rcases howner with ⟨hown, rfl⟩ | ⟨r, hconstant, rfl⟩
  · obtain ⟨rfl, htypes⟩ | ⟨t, own, ht, htsegments, hlast, hne⟩ := Scope.getLast?_segments hnames
    · refine ⟨none, .top hown htypes, ?_⟩
      rw [Outline.label_eq, hclass]
      rfl
    · have hlastOwn := Node.getLast?_lastSegment (Node.typeSegments_ne_nil htsegments)
      refine ⟨_, .enclosing hown ht htsegments hlastOwn, ?_⟩
      refine Outline.label_of_segments hclass haround (hlast.symm.trans hlastOwn) fun hempty => ?_
      rw [hempty] at hlastOwn
      exact Node.typeSegments_names htsegments (List.mem_of_getLast? hlastOwn)
  · have hr := hplain o hplace r (Node.mem_givenNames_of_onConstant hconstant)
    refine ⟨some r, .receiver hconstant, ?_⟩
    refine Outline.label_of_segments hclass ?_ List.getLast?_concat ?_
    · intro name hname
      rcases List.mem_append.mp hname with haway | hlast
      · exact haround name (List.dropLast_subset _ haway)
      · rwa [List.mem_singleton.mp hlast]
    · obtain ⟨-, receiver, segments, -, -, hsegments, hlast⟩ := hconstant
      rintro rfl
      exact Node.segmentsWithin_names hsegments (List.mem_of_getLast? hlast)

/-- Without colours, the outline of a file has one line for each feature in pre-order: two spaces
for each class or module that holds the feature and two more, its name or its label and tags, and
the line of the node that declares it, whatever the path. Where no name of a class, module or
receiver in the tree holds a colon, a method is labelled with the constant that it is declared on or
else the innermost class or module around it, and by its name alone where there is neither. -/
theorem outline_shows_owner_and_line (path : String) (root : Node) :
    let features := (extract path (.node root)).features
    let lines := Outline.lines .plain 1 features
    lines.length = (Feature.listing features).length ∧
    ∀ (i : Nat) (e : Listed), (Feature.listing features)[i]? = some e →
      ∃ o, root.declarations[i]? = some o ∧
        lines[i]? = some (String.ofList (List.replicate (2 * (e.holders.length + 1)) ' ') ++
          Outline.plainText e.heading ++ " :" ++ toString o.node.line) ∧
        ∀ m, e.heading = .method m → root.HasPlainNames →
          ∃ owner, o.Owner owner ∧ Outline.label m = Outline.ownedName m owner := by
  intro features lines
  have hlines : lines = (Feature.listing features).map (Outline.entryLine .plain) :=
    Outline.lines_eq_listing .plain features
  refine ⟨by rw [hlines, List.length_map], fun i e he => ?_⟩
  obtain ⟨o, ho, hshows⟩ := Extraction.exists_declaration he
  refine ⟨o, ho, ?_, fun m hm hplain => ?_⟩
  · rw [hlines, List.getElem?_map, he, Option.map_some,
      Outline.entryLine_plain (Node.heading_location hshows.heading)]
    rfl
  · obtain ⟨holders, heading⟩ := e
    cases hm
    exact hplain.exists_owner ho he

/-- The class `A::B` with a private method of its own and one on the constant `C`, on a line that
does not count from one. -/
def ownedMethods : Node :=
  let scope : Node := ⟨[3], .constant, [.absent, .name "A"], 1, 0⟩
  let receiver : Node := ⟨[8], .constant, [.absent, .name "C"], 3, 0⟩
  ⟨[1], .classDef, [.node ⟨[2], .constant, [.node scope, .name "B"], 1, 0⟩, .absent,
    .node ⟨[4], .group, [
      .node ⟨[5], .call, [.absent, .name "private"], 2, 0⟩,
      .node ⟨[6], .methodDef, [.name "go", .absent, .absent], 3, 0⟩,
      .node ⟨[7], .singletonDef, [.node receiver, .name "run", .absent, .absent], -5, 0⟩], 2, 0⟩],
    1, 0⟩

theorem outline_shows_owner_and_line_ownedMethods :
    let features := (extract "x:1/a.rb" (.node ownedMethods)).features
    let m : Method := ⟨"run", "x:1/a.rb:-5", "A::C", true, .priv⟩
    (Feature.listing features)[2]? = some ⟨[0], .method m⟩ ∧ ownedMethods.HasPlainNames ∧
    ∃ o, ownedMethods.declarations[2]? = some o ∧
      (Outline.lines .plain 1 features)[2]? = some "    C.run [static, private] :-5" ∧
      ∃ owner, o.Owner owner ∧ Outline.label m = Outline.ownedName m owner := by
  intro features m
  have hlisted : (Feature.listing features)[2]? = some ⟨[0], .method m⟩ := by decide
  have hplain : ownedMethods.HasPlainNames := by decide +kernel
  obtain ⟨o, ho, hline, howner⟩ :=
    (outline_shows_owner_and_line "x:1/a.rb" ownedMethods).2 2 ⟨[0], .method m⟩ hlisted
  have hdeclared : ownedMethods.declarations[2]?.map (·.node.line) = some (-5) := by decide +kernel
  rw [ho] at hdeclared
  have hfive : o.node.line = -5 := Option.some.inj hdeclared
  rw [hfive] at hline
  refine ⟨hlisted, hplain, o, ho, hline.trans ?_, howner m rfl hplain⟩
  decide +kernel

end RubyOutline
