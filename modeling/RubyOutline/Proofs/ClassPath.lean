import RubyOutline.Proofs.WalkListing

namespace RubyOutline

namespace Node

theorem segmentsWithin_ne_nil {links : Nat} {n : Node} {segments : List String}
    (h : n.segmentsWithin links = .ok segments) : segments ≠ [] := by
  cases links with
  | zero => cases h
  | succ links =>
    obtain ⟨scope, name, -, hscope⟩ | ⟨name, hname⟩ | ⟨fault, hfault, -⟩ :=
      segmentsWithin_cases links n
    · rw [hscope] at h
      cases hrec : scope.segmentsWithin links <;> rw [hrec] at h <;> cases h
      simp
    · rw [hname] at h
      cases h
      simp
    · rw [hfault] at h
      cases h

theorem typeSegments_ne_nil {n : Node} {segments : List String}
    (h : n.typeSegments = .ok segments) : segments ≠ [] := by
  obtain ⟨name, -, hname⟩ | ⟨fault, hfault, -⟩ := n.typeSegments_cases
  · rw [hname] at h
    exact segmentsWithin_ne_nil h
  · rw [hfault] at h
    cases h

theorem getLast?_lastSegment {segments : List String} (h : segments ≠ []) :
    segments.getLast? = some (lastSegment segments) := by
  rw [lastSegment, List.getLastD_eq_getLast?, List.getLast?_eq_some_getLast h, Option.getD_some]

/-- A receiver that can be made out is `self`, or a constant whose last segment counts. -/
theorem receiverName_ok {n : Node} {found : Option String} (h : n.receiverName = .ok found) :
    ∃ receiver : Node, n.children.head? = some (.node receiver) ∧
      ((receiver.kind = .selfRef ∧ found = none) ∨
        ∃ segments r, receiver.kind = .constant ∧ receiver.constantSegments = .ok segments ∧
          segments.getLast? = some r ∧ found = some r) := by
  rw [List.head?_eq_getElem?]
  obtain ⟨receiver, hfirst, hkind⟩ | ⟨fault, hfault, -⟩ := n.receiverName_cases
  · refine ⟨receiver, hfirst, ?_⟩
    rcases hkind with ⟨hself, hnone⟩ | ⟨hconstant, hname⟩
    · rw [hnone] at h
      cases h
      exact .inl ⟨hself, rfl⟩
    · rw [hname] at h
      cases hseg : receiver.segmentsWithin maxLinks with
      | error fault =>
        rw [hseg] at h
        cases h
      | ok segments =>
        rw [hseg] at h
        cases h
        have hlast := getLast?_lastSegment (segmentsWithin_ne_nil hseg)
        exact .inr ⟨segments, _, hconstant, hseg, hlast, rfl⟩
  · rw [hfault] at h
    cases h

theorem mem_visited_of_mem_around {root : Node} {o a : Occurrence} (h : o ∈ root.visited)
    (ha : a ∈ o.around) : a ∈ root.visited ∧ a.scope.length < Fault.maxDepth := by
  obtain ⟨hplace, hvisited⟩ := List.mem_filter.mp h
  obtain ⟨hdepth, hscope⟩ := Occurrence.isVisited_iff.mp hvisited
  have hsuffix := Occurrence.around_scope_suffix ha
  have hlen := hsuffix.length_le
  rw [List.length_cons] at hlen
  have hsub : ∀ b ∈ a.scope, b.isRejected = false := by
    intro b hb
    exact hscope b (hsuffix.subset (List.mem_cons_of_mem _ hb))
  refine ⟨List.mem_filter.mpr ⟨mem_places_of_mem_around hplace ha, ?_⟩, by omega⟩
  exact Occurrence.isVisited_iff.mpr ⟨by omega, hsub⟩

/-- Around a visited place every class and module is a declaration itself. -/
theorem type_mem_declarations {root : Node} {o t : Occurrence}
    (hno : ∀ o ∈ root.visited, o.overflows = false) (h : o ∈ root.visited) (ht : t ∈ o.types) :
    t ∈ root.declarations ∧ ∃ group, t.node.typeSegments = .ok group := by
  obtain ⟨haround, hkind⟩ := List.mem_filter.mp ht
  obtain ⟨hvisited, hdepth⟩ := mem_visited_of_mem_around h haround
  have hrejected : t.node.isRejected = false := by
    have hscope := (Occurrence.isVisited_iff.mp (List.mem_filter.mp h).2).2
    exact hscope _ ((Occurrence.around_scope_suffix haround).subset (by simp))
  have hdeclared : t.declared = t.node.declared := by
    rw [Occurrence.declared, if_neg (Nat.not_le.mpr hdepth)]
  cases hnode : t.node.declared with
  | error fault =>
    have hover := hno t hvisited
    rw [isRejected_of_error hnode] at hrejected
    simp only [Occurrence.overflows, Occurrence.fault?, hdeclared, hnode, Option.any_some] at hover
    have hreach := declared_error_of_isType hkind hnode
    cases hr : fault.reach <;> simp_all
  | ok made =>
    rw [declared_of_isType hkind, typeName] at hnode
    cases hseg : t.node.typeSegments with
    | error fault =>
      rw [hseg] at hnode
      cases hnode
    | ok group =>
      refine ⟨List.mem_filter.mpr ⟨hvisited, ?_⟩, group, rfl⟩
      rw [Occurrence.name?, hdeclared, declared_of_isType hkind, typeName, hseg]
      rfl

end Node

namespace Occurrence

theorem map_node_aroundIn {way : List Nat} {scope : Scope} (h : way.length = scope.length) :
    (aroundIn way scope).map Occurrence.node = scope.reverse := by
  induction scope generalizing way with
  | nil => cases way <;> simp [aroundIn]
  | cons n scope ih =>
    cases way with
    | nil => simp at h
    | cons i way =>
      rw [aroundIn, List.map_append, ih (by simpa using h), List.reverse_cons]
      rfl

theorem map_node_types {root : Node} {o : Occurrence} (h : o ∈ root.places) :
    o.types.map Occurrence.node = o.scope.reverse.filter (·.kind.isType) := by
  rw [← map_node_aroundIn (Node.places_length h), List.filter_map]
  rfl

theorem getElem?_placeIn {os : List Occurrence} (h : (os.map Occurrence.way).Nodup)
    {o : Occurrence} (ho : o ∈ os) : os[placeIn os o.way]? = some o := by
  obtain ⟨k, hk⟩ := List.getElem?_of_mem ho
  rw [places_placeIn h k o hk, Nat.zero_add, hk]

end Occurrence

/-- Around a visited place every class and module can be named. -/
theorem Node.scope_resolved {root : Node} {o : Occurrence}
    (hno : ∀ o ∈ root.visited, o.overflows = false) (h : o ∈ root.visited) : o.scope.Resolved := by
  intro n hn hkind
  have hmem : n ∈ o.types.map Occurrence.node := by
    rw [Occurrence.map_node_types (List.mem_filter.mp h).1]
    exact List.mem_filter.mpr ⟨List.mem_reverse.mpr hn, hkind⟩
  obtain ⟨t, ht, rfl⟩ := List.mem_map.mp hmem
  exact (Node.type_mem_declarations hno h ht).2

/-- At a place of the listing stands a class or module whose declaration adds these segments to the
path of what it holds. -/
def AddsSegments (path : String) (root : Node) (place : Nat) (group : List String) : Prop :=
  ∃ (holders : List Nat) (name location : String) (t : Occurrence),
    (Feature.listing (extract path (.node root)).features)[place]? =
      some ⟨holders, .classLike name location⟩ ∧
    root.declarations[place]? = some t ∧ t.node.typeSegments = .ok group ∧
    group.getLast? = some name

/-- A method that belongs to the classes and modules around it. -/
def Node.OnOwnPath (n : Node) : Prop :=
  n.kind = .methodDef ∨ n.kind = .singletonDef ∧ ∃ receiver : Node,
    n.children.head? = some (.node receiver) ∧ receiver.kind = .selfRef

/-- A method that is declared on a constant, with the last segment of that constant. -/
def Node.OnConstant (n : Node) (r : String) : Prop :=
  n.kind = .singletonDef ∧ ∃ (receiver : Node) (segments : List String),
    n.children.head? = some (.node receiver) ∧ receiver.kind = .constant ∧
      receiver.constantSegments = .ok segments ∧ segments.getLast? = some r

theorem addsSegments_placeIn {path : String} {root : Node} {t : Occurrence} {group : List String}
    (hfinished : (root.walk path []).isFinished = true) (ht : t ∈ root.declarations)
    (hkind : t.node.kind.isType = true) (hgroup : t.node.typeSegments = .ok group) :
    AddsSegments path root (Occurrence.placeIn root.declarations t.way) group := by
  have hplace := Occurrence.getElem?_placeIn root.declarations_way_nodup ht
  obtain ⟨⟨holders, heading⟩, hlisted, hshows⟩ := Extraction.exists_listed hfinished hplace
  have htype := Node.isType_of_heading hshows.heading
  rw [hkind] at htype
  cases heading with
  | method m => cases htype
  | classLike name location =>
    refine ⟨holders, name, location, t, hlisted, hplace, hgroup, ?_⟩
    have hheading := hshows.heading
    rw [Node.heading, (Kind.role_eq_classLike_iff _).mpr hkind, Node.typeName, hgroup] at hheading
    cases hheading
    exact Node.getLast?_lastSegment (Node.typeSegments_ne_nil hgroup)

/-- What holds a declaration adds the segments of the classes and modules around it. -/
theorem exists_groups_of_shows {path : String} {root : Node} {o : Occurrence} {f : Listed}
    (hfinished : (root.walk path []).isFinished = true) (ho : o ∈ root.declarations)
    (hshows : f.Shows path (Occurrence.placeIn root.declarations) o) :
    ∃ groups, List.Forall₂ (AddsSegments path root) f.holders groups ∧
      Scope.segments o.scope = .ok groups.flatten := by
  have hvisited := (List.mem_filter.mp ho).1
  have hplace := (List.mem_filter.mp hvisited).1
  have hno := (root.isFinished_walk_iff path).mp hfinished
  have htypes := fun t ht => Node.type_mem_declarations (t := t) hno hvisited ht
  obtain ⟨groups, hgroups, hsegments⟩ := (Node.scope_resolved hno hvisited).segments
  refine ⟨groups, ?_, hsegments⟩
  rw [← Occurrence.map_node_types hplace, List.forall₂_map_left_iff] at hgroups
  rw [hshows.holders, List.forall₂_map_left_iff]
  have hboth := (List.forall₂_and_left _ _).mpr ⟨fun t ht => ht, hgroups⟩
  refine hboth.imp fun t group ⟨ht, hgroup⟩ => ?_
  exact addsSegments_placeIn hfinished (htypes t ht).1 (List.mem_filter.mp ht).2 hgroup

theorem Node.ownerSegments_ok {n : Node} {names owner : List String}
    (hrole : n.kind.role = .instanceMethod ∨ n.kind.role = .staticMethod)
    (h : n.ownerSegments names = .ok owner) :
    (n.OnOwnPath ∧ owner = names) ∨ ∃ r, n.OnConstant r ∧ owner = names.dropLast ++ [r] := by
  rw [ownerSegments] at h
  split at h
  · rename_i hsingleton
    cases hreceiver : n.receiverName with
    | error fault =>
      rw [hreceiver] at h
      cases h
    | ok found =>
      rw [hreceiver] at h
      obtain ⟨receiver, hhead, ⟨hself, rfl⟩ | ⟨segments, r, hconst, hseg, hlast, rfl⟩⟩ :=
        receiverName_ok hreceiver
      · cases h
        exact .inl ⟨.inr ⟨hsingleton, receiver, hhead, hself⟩, rfl⟩
      · cases h
        exact .inr ⟨r, ⟨hsingleton, receiver, segments, hhead, hconst, hseg, hlast⟩, rfl⟩
  · cases h
    refine .inl ⟨.inl ?_, rfl⟩
    cases hk : n.kind <;> simp_all [Kind.role]

/-- Groups of one segment each are the names of the classes and modules that add them. -/
theorem flatten_groups_of_single {path : String} {root : Node} {holders : List Nat}
    {groups : List (List String)} (h : List.Forall₂ (AddsSegments path root) holders groups)
    (hsingle : ∀ group ∈ groups, group.length = 1) :
    groups.flatten = holders.filterMap fun place =>
      (Feature.listing (extract path (.node root)).features)[place]?.map (·.heading.name) := by
  induction h with
  | nil => rfl
  | @cons place group _ _ hadds _ ih =>
    obtain ⟨outer, name, location, t, hlisted, -, -, hlast⟩ := hadds
    obtain ⟨segment, rfl⟩ := List.length_eq_one_iff.mp (hsingle group (by simp))
    obtain rfl : segment = name := by simpa using hlast
    rw [List.flatten_cons, ih fun group hgroup => hsingle group (List.mem_cons_of_mem _ hgroup),
      List.filterMap_cons, hlisted]
    rfl

/-- The class path of a listed method, by the classes and modules that hold it: their segments from
the outside in, the last of them replaced where the method is declared on a constant. -/
theorem className_follows_holders (path : String) (root : Node) (i : Nat) (holders : List Nat)
    (m : Method)
    (h : (Feature.listing (extract path (.node root)).features)[i]? =
      some ⟨holders, .method m⟩) :
    ∃ (o : Occurrence) (groups : List (List String)),
      root.declarations[i]? = some o ∧ o.name? = some m.name ∧
      m.location = Location.render path o.node.line ∧
      List.Forall₂ (AddsSegments path root) holders groups ∧
      ((o.node.OnOwnPath ∧ m.className = Qualified.join groups.flatten ∧
          ((∀ group ∈ groups, group.length = 1) →
            m.className = Qualified.join (holders.filterMap fun place =>
              (Feature.listing (extract path (.node root)).features)[place]?.map
                (·.heading.name)))) ∨
        ∃ r, o.node.OnConstant r ∧
          m.className = Qualified.join (groups.flatten.dropLast ++ [r]) ∧
            (holders = [] → m.className = r)) := by
  obtain ⟨o, ho, hshows⟩ := Extraction.exists_declaration h
  have hfinished := Extraction.isFinished_of_listed h
  obtain ⟨groups, hgroups, hsegments⟩ :=
    exists_groups_of_shows hfinished (List.mem_of_getElem? ho) hshows
  obtain ⟨hrole, hmethod⟩ := Node.method_of_heading hshows.heading
  obtain ⟨-, hclass, hlocation, -, -⟩ := Node.method_ok hmethod
  rw [Node.methodClass_eq hsegments] at hclass
  refine ⟨o, groups, ho, hshows.name, hlocation, hgroups, ?_⟩
  cases howner : o.node.ownerSegments groups.flatten with
  | error fault =>
    rw [howner] at hclass
    cases hclass
  | ok owner =>
    replace hclass : m.className = Qualified.join owner := by
      rw [howner] at hclass
      exact (Except.ok.inj hclass).symm
    obtain ⟨hown, rfl⟩ | ⟨r, hconstant, rfl⟩ := Node.ownerSegments_ok hrole howner
    · refine .inl ⟨hown, hclass, fun hsingle => ?_⟩
      rw [hclass, flatten_groups_of_single hgroups hsingle]
    · refine .inr ⟨r, hconstant, hclass, fun hempty => ?_⟩
      have hnil : groups = [] := by
        have hlength := hgroups.length_eq
        rw [hempty] at hlength
        exact List.length_eq_zero_iff.mp hlength.symm
      rw [hclass, hnil]
      rfl

/-- The module `A::B` with a singleton class in which a method is declared on the constant `C`. -/
def receiverInModule : Node :=
  let scope : Node := ⟨[3], .constant, [.absent, .name "A"], 1, 0⟩
  let receiver : Node := ⟨[5], .constant, [.absent, .name "C"], 3, 0⟩
  ⟨[1], .moduleDef, [.node ⟨[2], .constant, [.node scope, .name "B"], 1, 0⟩,
    .node ⟨[4], .singletonClass, [.absent,
      .node ⟨[6], .singletonDef, [.node receiver, .name "go", .absent, .absent], 3, 0⟩], 2, 0⟩],
    1, 0⟩

theorem className_follows_receiverInModule :
    let m : Method := ⟨"go", "a.rb:3", "A::C", true, .pub⟩
    (Feature.listing (extract "a.rb" (.node receiverInModule)).features)[1]? =
      some ⟨[0], .method m⟩ ∧
    ∃ (o : Occurrence) (groups : List (List String)),
      receiverInModule.declarations[1]? = some o ∧ o.name? = some m.name ∧
      List.Forall₂ (AddsSegments "a.rb" receiverInModule) [0] groups ∧
      (o.node.OnOwnPath ∧ m.className = Qualified.join groups.flatten ∨
        ∃ r, o.node.OnConstant r ∧
          m.className = Qualified.join (groups.flatten.dropLast ++ [r])) := by
  refine ⟨by decide, ?_⟩
  obtain ⟨o, groups, ho, hname, -, hgroups, ⟨hown, hclass, -⟩ | ⟨r, hconstant, hclass, -⟩⟩ :=
    className_follows_holders "a.rb" receiverInModule 1 [0] ⟨"go", "a.rb:3", "A::C", true, .pub⟩
      (by decide)
  · exact ⟨o, groups, ho, hname, hgroups, .inl ⟨hown, hclass⟩⟩
  · exact ⟨o, groups, ho, hname, hgroups, .inr ⟨r, hconstant, hclass⟩⟩

end RubyOutline
