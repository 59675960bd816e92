import RubyOutline.Proofs.Declaration

namespace RubyOutline

theorem Walk.ofFault_eq {path : String} {fault : Fault} (h : fault.reach ≠ .declaration)
    (w w' : Walk) : Walk.ofFault path fault w = Walk.ofFault path fault w' := by
  unfold Walk.ofFault
  cases hreach : fault.reach with
  | declaration => exact absurd hreach h
  | subtree | file => rfl

/-- One step of the walk, by the feature that the node makes by itself. -/
theorem Node.walk_eq (path : String) (scope : Scope) (n : Node) :
    n.walk path scope =
      if Fault.maxDepth ≤ scope.length then Walk.ofFault path (.nestedTooDeep n) .empty
      else
        let inside := Node.walkAll path (n :: scope) n.children
        match n.heading path scope with
        | .error fault => Walk.ofFault path fault inside
        | .ok none => inside
        | .ok (some (.classLike name location)) => inside.within name location
        | .ok (some (.method m)) => (Walk.finished [.method m] []).andThen inside := by
  obtain ⟨identity, kind, children, line, column⟩ := n
  rw [Node.walk]
  split
  · rfl
  · unfold Node.heading
    cases hrole : kind.role with
    | transparent => rfl
    | classLike =>
      simp only
      rw [Node.typeName]
      cases hseg : Node.typeSegments ⟨identity, kind, children, line, column⟩ with
      | ok segments => rfl
      | error fault => exact Walk.ofFault_eq (Node.typeSegments_error hseg) _ _
    | instanceMethod | staticMethod =>
      simp only
      cases Node.method path scope ⟨identity, kind, children, line, column⟩ <;> rfl

theorem Node.walkAll_skip (path : String) (scope : Scope) {c : Child} (h : c.node? = none)
    (rest : List Child) : Node.walkAll path scope (c :: rest) = Node.walkAll path scope rest := by
  cases c with
  | node n => simp [Child.node?] at h
  | absent | name | literal => simp only [Node.walkAll]

/-- `place` gives the occurrences their places in a listing that goes on at `start`. -/
def Places (place : List Nat → Nat) (start : Nat) (os : List Occurrence) : Prop :=
  ∀ (k : Nat) (o : Occurrence), os[k]? = some o → place o.way = start + k

theorem Places.left {place : List Nat → Nat} {start : Nat} {os os' : List Occurrence}
    (h : Places place start (os ++ os')) : Places place start os := by
  intro k o hk
  obtain ⟨hlt, -⟩ := List.getElem?_eq_some_iff.mp hk
  exact h k o (by rw [List.getElem?_append_left hlt, hk])

theorem Places.right {place : List Nat → Nat} {start : Nat} {os os' : List Occurrence}
    (h : Places place start (os ++ os')) : Places place (start + os.length) os' := by
  intro k o hk
  have hk' : (os ++ os')[os.length + k]? = some o := by
    rw [List.getElem?_append_right (Nat.le_add_right _ _), Nat.add_sub_cancel_left, hk]
  rw [h _ o hk', Nat.add_assoc]

/-- An entry of a listing shows what stands at a place: the feature that the node there makes, held
by the features of the classes and modules around it. -/
structure Listed.Shows (path : String) (place : List Nat → Nat) (f : Listed) (o : Occurrence) :
    Prop where
  name : o.name? = some f.heading.name
  heading : o.node.heading path o.scope = .ok (some f.heading)
  holders : f.holders = o.types.map fun t => place t.way

/-- What a walk over places below the given types should have found. -/
def Walk.Covers (path : String) (types os : List Occurrence) : Walk → Prop
  | .finished features diagnostics =>
    (∀ o ∈ os, o.overflows = false) ∧
    diagnostics = (os.filterMap Occurrence.fault?).map (Diagnostic.ofFault path) ∧
    ∀ (place : List Nat → Nat) (start : Nat), Places place start (os.filter (·.name?.isSome)) →
      List.Forall₂ (Listed.Shows path place)
        (Feature.listingFrom (types.map fun t => place t.way) start features)
        (os.filter (·.name?.isSome))
  | .abandoned _ => ∃ o ∈ os, o.overflows = true

namespace Walk.Covers

theorem empty (path : String) (types : List Occurrence) : Covers path types [] .empty := by
  refine ⟨by simp, by simp, fun place start _ => ?_⟩
  exact List.Forall₂.nil

theorem andThen {path : String} {types os os' : List Occurrence} {w w' : Walk}
    (h : Covers path types os w) (h' : Covers path types os' w') :
    Covers path types (os ++ os') (w.andThen w') := by
  cases w with
  | abandoned ds =>
    obtain ⟨o, ho, hover⟩ := h
    exact ⟨o, List.mem_append_left _ ho, hover⟩
  | finished fs ds =>
    cases w' with
    | abandoned es =>
      obtain ⟨o, ho, hover⟩ := h'
      exact ⟨o, List.mem_append_right _ ho, hover⟩
    | finished gs es =>
      obtain ⟨hno, hds, hfs⟩ := h
      obtain ⟨hno', hes, hgs⟩ := h'
      refine ⟨?_, ?_, ?_⟩
      · intro o ho
        exact (List.mem_append.mp ho).elim (hno o) (hno' o)
      · rw [List.filterMap_append, List.map_append, ← hds, ← hes]
      · intro place start hplaces
        rw [List.filter_append] at hplaces ⊢
        have hleft := hfs place start hplaces.left
        rw [Feature.listingFrom_append, hleft.length_eq]
        exact List.rel_append hleft (hgs place _ hplaces.right)

/-- A place with a fault that does not cost the whole tree. -/
theorem ofFault {path : String} {types : List Occurrence} {o : Occurrence} {fault : Fault}
    (h : o.declared = .error fault) (hreach : fault.reach ≠ .file) :
    Covers path types [o] (.finished [] [Diagnostic.ofFault path fault]) := by
  have hfault : o.fault? = some fault := by rw [Occurrence.fault?, h]
  have hname : o.name? = none := by rw [Occurrence.name?, h]
  refine ⟨?_, by simp [hfault], fun place start _ => ?_⟩
  · intro o' ho'
    obtain rfl := List.mem_singleton.mp ho'
    simp [Occurrence.overflows, hfault, hreach]
  · simp [hname, Feature.listingFrom]

/-- A place that declares nothing. -/
theorem silent {path : String} {types : List Occurrence} {o : Occurrence}
    (h : o.declared = .ok none) : Covers path types [o] .empty := by
  have hfault : o.fault? = none := by rw [Occurrence.fault?, h]
  have hname : o.name? = none := by rw [Occurrence.name?, h]
  refine ⟨?_, by simp [hfault], fun place start _ => ?_⟩
  · intro o' ho'
    obtain rfl := List.mem_singleton.mp ho'
    simp [Occurrence.overflows, hfault]
  · simp [hname, Feature.listingFrom]

theorem method {path : String} {o : Occurrence} {m : Method}
    (h : o.declared = .ok (some m.name))
    (hheading : o.node.heading path o.scope = .ok (some (.method m))) :
    Covers path o.types [o] (.finished [.method m] []) := by
  have hfault : o.fault? = none := by rw [Occurrence.fault?, h]
  have hname : o.name? = some m.name := by rw [Occurrence.name?, h]
  refine ⟨?_, by simp [hfault], fun place start _ => ?_⟩
  · intro o' ho'
    obtain rfl := List.mem_singleton.mp ho'
    simp [Occurrence.overflows, hfault]
  · rw [List.filter_cons_of_pos (by simp [hname]), List.filter_nil, Feature.listingFrom_singleton,
      Feature.listingOf]
    exact List.Forall₂.cons ⟨hname, hheading, rfl⟩ List.Forall₂.nil

/-- A class or module holds what is found inside it, and its own entry comes first. -/
theorem within {path : String} {o : Occurrence} {os : List Occurrence} {name location : String}
    {w : Walk} (h : o.declared = .ok (some name))
    (hheading : o.node.heading path o.scope = .ok (some (.classLike name location)))
    (hw : Covers path (o.types ++ [o]) os w) :
    Covers path o.types (o :: os) (w.within name location) := by
  have hfault : o.fault? = none := by rw [Occurrence.fault?, h]
  have hname : o.name? = some name := by rw [Occurrence.name?, h]
  cases w with
  | abandoned ds =>
    obtain ⟨o', ho', hover⟩ := hw
    exact ⟨o', List.mem_cons_of_mem _ ho', hover⟩
  | finished fs ds =>
    obtain ⟨hno, hds, hfs⟩ := hw
    refine ⟨?_, by simp [hfault, hds], fun place start hplaces => ?_⟩
    · intro o' ho'
      rcases List.mem_cons.mp ho' with rfl | ho'
      · simp [Occurrence.overflows, hfault]
      · exact hno o' ho'
    · rw [List.filter_cons_of_pos (by simp [hname])] at hplaces ⊢
      rw [Feature.listingFrom_singleton, Feature.listingOf]
      have hself : place o.way = start := hplaces 0 o rfl
      have hrest := hfs place (start + 1) (@Places.right place start [o] _ hplaces)
      rw [List.map_append, List.map_singleton, hself] at hrest
      exact List.Forall₂.cons ⟨hname, hheading, rfl⟩ hrest

end Walk.Covers

theorem Occurrence.types_child (i : Nat) (c : Node) (o : Occurrence) :
    Occurrence.types ⟨i :: o.way, o.node :: o.scope, c⟩ =
      o.types ++ if o.node.kind.isType then [o] else [] := by
  simp only [Occurrence.types, Occurrence.around, Occurrence.aroundIn, List.filter_append]
  split <;> simp_all

namespace Node

theorem walkAll_covers {path : String} {types : List Occurrence} {way : List Nat} {scope : Scope}
    {children : List Child} (index : Nat)
    (h : ∀ c : Node, .node c ∈ children → ∀ i : Nat, Walk.Covers path types
      ((c.occurrences (i :: way) scope).filter Occurrence.isVisited) (c.walk path scope)) :
    Walk.Covers path types ((occurrencesAll way index scope children).filter Occurrence.isVisited)
      (walkAll path scope children) := by
  induction children using Child.listInduction generalizing index with
  | nil => exact Walk.Covers.empty path types
  | node c rest ih =>
    rw [occurrencesAll, walkAll, List.filter_append]
    exact (h c (by simp) index).andThen (ih _ fun d hd => h d (List.mem_cons_of_mem _ hd))
  | skip c rest hc ih =>
    rw [occurrencesAll_skip _ _ _ hc, walkAll_skip _ _ hc]
    exact ih _ fun d hd => h d (List.mem_cons_of_mem _ hd)

/-- The walk over one node, given that the walk over its children does what it should whenever it
is made. -/
theorem walk_covers_of_walkAll {path : String} {o : Occurrence} {os : List Occurrence}
    {names : List String} (hsegments : Scope.segments o.scope = .ok names)
    (hdepth : o.scope.length < Fault.maxDepth)
    (hrejected : o.node.isRejected = true → os = [])
    (hinside : o.node.Entered → Walk.Covers path
      (o.types ++ if o.node.kind.isType then [o] else []) os
        (walkAll path (o.node :: o.scope) o.node.children)) :
    Walk.Covers path o.types (o :: os) (o.node.walk path o.scope) := by
  have hlimit : ¬Fault.maxDepth ≤ o.scope.length := Nat.not_le.mpr hdepth
  have hdeclared : o.declared = o.node.declared := by rw [Occurrence.declared, if_neg hlimit]
  have hnode := heading_name hsegments path o.node
  rw [walk_eq, if_neg hlimit]
  cases hheading : o.node.heading path o.scope with
  | error fault =>
    replace hnode : o.node.declared = .error fault := by rw [← hnode, hheading, Except.map]
    rw [hnode] at hdeclared
    simp only [Walk.ofFault]
    cases hreach : fault.reach with
    | declaration =>
      have htype : o.node.kind.isType = false := by
        rw [← Bool.not_eq_true]
        intro hkind
        exact declared_error_of_isType hkind hnode hreach
      have hw := hinside fun e he => by
        rw [hnode] at he
        cases he
        exact hreach
      rw [htype, if_neg Bool.false_ne_true, List.append_nil] at hw
      exact (Walk.Covers.ofFault hdeclared (by simp [hreach])).andThen hw
    | subtree =>
      rw [hrejected (by rw [isRejected_of_error hnode, hreach]; rfl)]
      exact Walk.Covers.ofFault hdeclared (by simp [hreach])
    | file =>
      refine ⟨o, by simp, ?_⟩
      simp [Occurrence.overflows, Occurrence.fault?, hdeclared, hreach]
  | ok made =>
    replace hnode : o.node.declared = .ok (made.map Heading.name) := by
      rw [← hnode, hheading, Except.map]
    rw [hnode] at hdeclared
    have hw := hinside fun e he => by
      rw [hnode] at he
      cases he
    rw [isType_of_heading hheading] at hw
    cases made with
    | none =>
      rw [Option.any_none, if_neg Bool.false_ne_true, List.append_nil] at hw
      have h := (Walk.Covers.silent hdeclared).andThen hw
      rwa [Walk.empty_andThen] at h
    | some heading =>
      cases heading with
      | classLike name location => exact Walk.Covers.within hdeclared hheading hw
      | method m =>
        rw [Option.any_some, Heading.isClass, if_neg Bool.false_ne_true, List.append_nil] at hw
        exact (Walk.Covers.method hdeclared hheading).andThen hw

/-- A walk does what it should wherever nothing around it is malformed, all classes and modules
around it can be named, and the depth limit is not passed. -/
theorem walk_covers (path : String) (n : Node) {way : List Nat} {scope : Scope}
    (hdepth : scope.length ≤ Fault.maxDepth) (hscope : ∀ a ∈ scope, a.isRejected = false)
    (hresolved : scope.Resolved) :
    Walk.Covers path (Occurrence.types ⟨way, scope, n⟩)
      ((n.occurrences way scope).filter Occurrence.isVisited) (n.walk path scope) := by
  induction n using Node.childInduction generalizing way scope with
  | step n ih =>
    rw [filter_occurrences hdepth hscope]
    rcases Nat.lt_or_eq_of_le hdepth with hlt | heq
    · obtain ⟨groups, -, hsegments⟩ := hresolved.segments
      refine walk_covers_of_walkAll (o := ⟨way, scope, n⟩) hsegments hlt ?_ ?_
      · intro hrejected
        exact filter_occurrencesAll_eq_nil (.inr ⟨n, by simp, hrejected⟩)
      · intro hentered
        refine walkAll_covers 0 fun c hc i => ?_
        have hchild := @ih c hc (i :: way) (n :: scope) hlt ?_ ?_
        · rwa [Occurrence.types_child i c ⟨way, scope, n⟩] at hchild
        · intro a ha
          rcases List.mem_cons.mp ha with rfl | ha
          · exact hentered.isRejected
          · exact hscope a ha
        · intro a ha hkind
          rcases List.mem_cons.mp ha with rfl | ha
          · exact hentered.typeSegments hkind
          · exact hresolved a ha hkind
    · have hlimit : Fault.maxDepth ≤ scope.length := Nat.le_of_eq heq.symm
      rw [filter_occurrencesAll_eq_nil (.inl (by simp [heq])), walk_eq, if_pos hlimit]
      refine Walk.Covers.ofFault ?_ (by simp [Fault.reach])
      rw [Occurrence.declared, if_pos hlimit]

theorem walk_covers_visited (path : String) (root : Node) :
    Walk.Covers path [] root.visited (root.walk path []) :=
  walk_covers path root (Nat.zero_le _) (by simp) (by simp [Scope.Resolved])

theorem declarations_way_nodup (root : Node) : (root.declarations.map Occurrence.way).Nodup := by
  have hsub : root.declarations.Sublist root.places :=
    List.filter_sublist.trans List.filter_sublist
  exact (occurrences_way_nodup [] [] root).sublist (hsub.map _)

end Node

def Walk.isFinished : Walk → Bool
  | .finished _ _ => true
  | .abandoned _ => false

/-- A walk finishes exactly when no visited place has a chain of constants that is too long. -/
theorem Node.isFinished_walk_iff (path : String) (root : Node) :
    (root.walk path []).isFinished = true ↔ ∀ o ∈ root.visited, o.overflows = false := by
  have h := root.walk_covers_visited path
  cases hw : root.walk path [] with
  | finished fs ds =>
    rw [hw] at h
    exact ⟨fun _ => h.1, fun _ => rfl⟩
  | abandoned ds =>
    rw [hw] at h
    obtain ⟨o, ho, hover⟩ := h
    constructor
    · intro hfinished
      cases hfinished
    · intro hno
      rw [hno o ho] at hover
      cases hover

/-- The place of a way in a list of places. -/
def Occurrence.placeIn (os : List Occurrence) (way : List Nat) : Nat :=
  (os.map Occurrence.way).idxOf way

theorem Occurrence.places_placeIn {os : List Occurrence} (h : (os.map Occurrence.way).Nodup) :
    Places (placeIn os) 0 os := by
  intro k o hk
  obtain ⟨hlt, rfl⟩ := List.getElem?_eq_some_iff.mp hk
  have hidx := h.idxOf_getElem k (by simpa using hlt)
  rw [List.getElem_map] at hidx
  rw [placeIn, hidx, Nat.zero_add]

namespace Extraction

/-- The features of a file are its declarations, place by place. -/
theorem listing_shows {path : String} {root : Node}
    (h : (root.walk path []).isFinished = true) :
    List.Forall₂ (Listed.Shows path (Occurrence.placeIn root.declarations))
      (Feature.listing (extract path (.node root)).features) root.declarations := by
  have hcovers := root.walk_covers_visited path
  rw [extract]
  cases hw : root.walk path [] with
  | abandoned ds =>
    rw [hw] at h
    cases h
  | finished fs ds =>
    rw [hw] at hcovers
    exact hcovers.2.2 _ 0 (Occurrence.places_placeIn root.declarations_way_nodup)

theorem diagnostics_eq {path : String} {root : Node}
    (h : (root.walk path []).isFinished = true) :
    (extract path (.node root)).diagnostics =
      (root.visited.filterMap Occurrence.fault?).map (Diagnostic.ofFault path) := by
  have hcovers := root.walk_covers_visited path
  rw [extract]
  cases hw : root.walk path [] with
  | abandoned ds =>
    rw [hw] at h
    cases h
  | finished fs ds =>
    rw [hw] at hcovers
    exact hcovers.2.1

theorem isFinished_of_listed {path : String} {root : Node} {i : Nat} {f : Listed}
    (h : (Feature.listing (extract path (.node root)).features)[i]? = some f) :
    (root.walk path []).isFinished = true := by
  cases hw : root.walk path [] with
  | finished fs ds => rfl
  | abandoned ds =>
    rw [extract, hw] at h
    simp [Feature.listing, Feature.listingFrom] at h

/-- Each entry of the listing shows the declaration at the same place in the list of these. -/
theorem exists_declaration {path : String} {root : Node} {i : Nat} {f : Listed}
    (h : (Feature.listing (extract path (.node root)).features)[i]? = some f) :
    ∃ o, root.declarations[i]? = some o ∧
      f.Shows path (Occurrence.placeIn root.declarations) o := by
  have hshows := listing_shows (isFinished_of_listed h)
  obtain ⟨hlt, rfl⟩ := List.getElem?_eq_some_iff.mp h
  have hlt' := hshows.length_eq ▸ hlt
  exact ⟨root.declarations[i], List.getElem?_eq_getElem hlt', hshows.get hlt hlt'⟩

/-- Each declaration is shown by the entry at the same place in the listing. -/
theorem exists_listed {path : String} {root : Node} {i : Nat} {o : Occurrence}
    (hfinished : (root.walk path []).isFinished = true) (h : root.declarations[i]? = some o) :
    ∃ f, (Feature.listing (extract path (.node root)).features)[i]? = some f ∧
      f.Shows path (Occurrence.placeIn root.declarations) o := by
  have hshows := listing_shows hfinished
  obtain ⟨hlt, rfl⟩ := List.getElem?_eq_some_iff.mp h
  have hlt' := hshows.length_eq.symm ▸ hlt
  exact ⟨_, List.getElem?_eq_getElem hlt', hshows.get hlt' hlt⟩

end Extraction

end RubyOutline
