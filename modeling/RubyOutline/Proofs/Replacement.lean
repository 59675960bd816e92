import RubyOutline.Proofs.VisibilityPass

namespace RubyOutline

namespace Node

/-- The node with another child at a position. -/
def withChild (n : Node) (position : Nat) (c : Child) : Node :=
  { n with children := n.children.set position c }

theorem withChild_self {n : Node} {position : Nat} {c : Child}
    (h : n.children[position]? = some c) : n.withChild position c = n := by
  obtain ⟨identity, kind, children, line, column⟩ := n
  obtain ⟨hlt, rfl⟩ := List.getElem?_eq_some_iff.mp h
  rw [withChild, List.set_getElem_self]

/-- Nodes that are the same but for one child of one group inside them. -/
inductive Alike : Node → Node → Prop where
  | refl (n : Node) : Alike n n
  | group {n : Node} (h : n.kind = .group) (position : Nat) (c : Child) :
      Alike n (n.withChild position c)
  | inside {n c c' : Node} {position : Nat} (h : n.children[position]? = some (.node c))
      (hc : Alike c c') : Alike n (n.withChild position (.node c'))

end Node

/-- Children that are alike as nodes; what is no node is alike only to itself. -/
inductive Child.Alike : Child → Child → Prop where
  | absent : Child.Alike .absent .absent
  | name (text : String) : Child.Alike (.name text) (.name text)
  | literal (value : Literal) : Child.Alike (.literal value) (.literal value)
  | node {n n' : Node} (h : n.Alike n') : Child.Alike (.node n) (.node n')

theorem Child.Alike.refl (c : Child) : c.Alike c := by
  cases c with
  | absent => exact .absent
  | name text => exact .name text
  | literal value => exact .literal value
  | node n => exact .node (.refl n)

theorem Child.Alike.refl? (c : Option Child) : Option.Rel Child.Alike c c := by
  cases c with
  | none => exact .none
  | some c => exact .some (.refl c)

/-- What a result shows: a fault counts by its reach and its diagnostic. -/
def Fault.seen {α : Type} (path : String) (r : Except Fault α) : Except (Reach × Diagnostic) α :=
  r.mapError fun fault => (fault.reach, Diagnostic.ofFault path fault)

namespace Fault

variable {α β : Type} {path : String}

theorem seen_bind (r : Except Fault α) (next : α → Except Fault β) :
    seen path (r >>= next) = seen path r >>= fun a => seen path (next a) := by
  cases r <;> rfl

theorem seen_map (r : Except Fault α) (f : α → β) :
    seen path (r.map f) = (seen path r).map f := by
  cases r <;> rfl

theorem seen_eq_ok {r : Except Fault α} {a : α} : seen path r = .ok a ↔ r = .ok a := by
  cases r with
  | error fault => simp [seen, Except.mapError]
  | ok b => simp [seen, Except.mapError]

end Fault

namespace Node.Alike

variable {n n' : Node} {path : String}

/-- Alike nodes differ in their children alone, so faults that name them look the same. -/
theorem eq_withChildren (h : n.Alike n') : ∃ children, n' = { n with children } := by
  obtain ⟨identity, kind, children, line, column⟩ := n
  cases h with
  | refl => exact ⟨_, rfl⟩
  | group => exact ⟨_, rfl⟩
  | inside => exact ⟨_, rfl⟩

theorem kind (h : n.Alike n') : n'.kind = n.kind := by
  obtain ⟨children, rfl⟩ := h.eq_withChildren
  rfl

theorem identity (h : n.Alike n') : n'.identity = n.identity := by
  obtain ⟨children, rfl⟩ := h.eq_withChildren
  rfl

theorem childAt? (h : n.Alike n') (hkind : n.kind ≠ .group) (position : Nat) :
    Option.Rel Child.Alike n.children[position]? n'.children[position]? := by
  cases h with
  | refl => exact Child.Alike.refl? _
  | group hgroup => exact absurd hgroup hkind
  | @inside _ c c' changed hc hchild =>
    obtain ⟨hlt, -⟩ := List.getElem?_eq_some_iff.mp hc
    by_cases heq : changed = position
    · subst heq
      rw [hc, withChild, List.getElem?_set_self hlt]
      exact .some (.node hchild)
    · rw [withChild, List.getElem?_set_ne heq]
      exact Child.Alike.refl? _

theorem seen_nameAt (h : n.Alike n') (hkind : n.kind ≠ .group) (position : Nat) :
    Fault.seen path (n'.nameAt position) = Fault.seen path (n.nameAt position) := by
  have hchild := h.childAt? hkind position
  obtain ⟨children, rfl⟩ := h.eq_withChildren
  unfold nameAt Node.childAt
  generalize n.children[position]? = c at hchild ⊢
  generalize children[position]? = c' at hchild ⊢
  cases hchild with
  | none => rfl
  | some hc =>
    cases hc with
    | absent | literal | node => rfl
    | name text =>
      simp only [bind, Except.bind]
      split
      · rfl
      · rfl

theorem constantScope? (h : n.Alike n') (hkind : n.kind ≠ .group) :
    Option.Rel Node.Alike n.constantScope? n'.constantScope? := by
  have hchild := h.childAt? hkind 0
  unfold Node.constantScope?
  rw [List.head?_eq_getElem?, List.head?_eq_getElem?]
  generalize n.children[0]? = c at hchild ⊢
  generalize n'.children[0]? = c' at hchild ⊢
  cases hchild with
  | none => exact .none
  | some hc =>
    cases hc with
    | absent | name | literal => exact .none
    | node hn =>
      simp only [hn.kind]
      split
      · exact .some hn
      · exact .none

/-- A chain of constants never goes through a group. -/
theorem seen_segmentsWithin (h : n.Alike n') (links : Nat) :
    Fault.seen path (n'.segmentsWithin links) = Fault.seen path (n.segmentsWithin links) := by
  induction links generalizing n n' with
  | zero => rfl
  | succ links ih =>
    rw [segmentsWithin, segmentsWithin, h.kind]
    split
    · rename_i hconstant
      have hkind : n.kind ≠ .group := by simp [hconstant]
      rw [Fault.seen_bind, Fault.seen_bind, h.seen_nameAt hkind]
      congr
      funext name
      have hscope := h.constantScope? hkind
      generalize n.constantScope? = s at hscope ⊢
      generalize n'.constantScope? = s' at hscope ⊢
      cases hscope with
      | none => rfl
      | some hs => simp only [Fault.seen_bind, ih hs]
    · obtain ⟨children, rfl⟩ := h.eq_withChildren
      rfl

theorem seen_typeSegments (h : n.Alike n') (hkind : n.kind ≠ .group) :
    Fault.seen path n'.typeSegments = Fault.seen path n.typeSegments := by
  have hchild := h.childAt? hkind 0
  obtain ⟨children, rfl⟩ := h.eq_withChildren
  unfold typeSegments Node.childAt
  generalize n.children[0]? = c at hchild ⊢
  generalize children[0]? = c' at hchild ⊢
  cases hchild with
  | none => rfl
  | some hc =>
    cases hc with
    | absent | name | literal => rfl
    | node hn => exact hn.seen_segmentsWithin maxLinks

theorem seen_receiverName (h : n.Alike n') (hkind : n.kind ≠ .group) :
    Fault.seen path n'.receiverName = Fault.seen path n.receiverName := by
  have hchild := h.childAt? hkind 0
  obtain ⟨children, rfl⟩ := h.eq_withChildren
  unfold receiverName Node.childAt
  generalize n.children[0]? = c at hchild ⊢
  generalize children[0]? = c' at hchild ⊢
  cases hchild with
  | none => rfl
  | some hc =>
    cases hc with
    | absent | name | literal => rfl
    | @node m m' hn =>
      have hlast : Fault.seen path (m'.constantSegments.map fun s => some (lastSegment s)) =
          Fault.seen path (m.constantSegments.map fun s => some (lastSegment s)) := by
        rw [Fault.seen_map, Fault.seen_map]
        exact congrArg _ (hn.seen_segmentsWithin maxLinks)
      obtain ⟨others, rfl⟩ := hn.eq_withChildren
      simp only [bind, Except.bind]
      split
      · rfl
      · split
        · exact hlast
        · rfl

theorem seen_methodName (h : n.Alike n') (hkind : n.kind ≠ .group) :
    Fault.seen path n'.methodName = Fault.seen path n.methodName := by
  rw [methodName, methodName, h.kind]
  split
  · exact h.seen_nameAt hkind 1
  · exact h.seen_nameAt hkind 0

theorem seen_declared (h : n.Alike n') :
    Fault.seen path n'.declared = Fault.seen path n.declared := by
  unfold declared
  rw [h.kind]
  by_cases hkind : n.kind = .group
  · rw [hkind]
    rfl
  · split
    · rfl
    · simp only [typeName, Fault.seen_map, h.seen_typeSegments hkind]
    · simp only [Fault.seen_map, h.seen_methodName hkind]
    · simp only [Fault.seen_bind, h.seen_methodName hkind, h.seen_receiverName hkind]

theorem isRejected_eq_seen (n : Node) (path : String) :
    n.isRejected = match Fault.seen path n.declared with
      | .error (reach, _) => reach == .subtree
      | .ok _ => false := by
  rw [Node.isRejected]
  cases n.declared <;> rfl

theorem isRejected (h : n.Alike n') : n'.isRejected = n.isRejected := by
  rw [isRejected_eq_seen n' "", isRejected_eq_seen n "", h.seen_declared]

theorem seen_ownerSegments (h : n.Alike n') (hkind : n.kind ≠ .group) (names : List String) :
    Fault.seen path (n'.ownerSegments names) = Fault.seen path (n.ownerSegments names) := by
  rw [ownerSegments, ownerSegments, h.kind]
  split
  · rw [Fault.seen_map, Fault.seen_map, h.seen_receiverName hkind]
  · rfl

end Node.Alike

namespace Scope

variable {s s' : Scope}

/-- Scopes of alike nodes give the same segments, as far as all their types can be named. -/
theorem Resolved.segments_alike (hresolved : s.Resolved) (h : List.Forall₂ Node.Alike s s') :
    Scope.segments s' = Scope.segments s := by
  induction h with
  | nil => rfl
  | @cons n n' outer outer' hn _ ih =>
    rw [Scope.segments, Scope.segments, ih fun m hm => hresolved m (List.mem_cons_of_mem _ hm),
      hn.kind]
    by_cases hkind : n.kind.isType = true
    · obtain ⟨own, hown⟩ := hresolved n (by simp) hkind
      have hgroup : n.kind ≠ .group := by
        intro hgroup
        rw [hgroup] at hkind
        cases hkind
      have hseen : Fault.seen "" n'.typeSegments = Fault.seen "" n.typeSegments :=
        hn.seen_typeSegments hgroup
      rw [hown, Fault.seen_eq_ok.mpr rfl, Fault.seen_eq_ok] at hseen
      rw [hown, hseen]
    · simp only [if_neg hkind]

theorem isSingleton_alike (h : List.Forall₂ Node.Alike s s') : s'.isSingleton = s.isSingleton := by
  cases h with
  | nil => rfl
  | cons hparent houter =>
    cases houter with
    | nil => simp only [Scope.isSingleton, hparent.kind]
    | cons hgrandparent _ => simp only [Scope.isSingleton, hparent.kind, hgrandparent.kind]

end Scope

/-- The visibility of a method depends on where it stands in its block and on the switches there. -/
theorem Node.visibilityIn_congr {m m' parent parent' : Node} {outer outer' : Scope}
    (hsame : parent'.children.map (Child.isSame m') = parent.children.map (Child.isSame m))
    (hswitch : parent'.children.map Child.switch? = parent.children.map Child.switch?) :
    m'.visibilityIn (parent' :: outer') = m.visibilityIn (parent :: outer) := by
  have hfirst : parent'.children.findIdx? (Child.isSame m') =
      parent.children.findIdx? (Child.isSame m) := by
    have h := congrArg (List.findIdx? id) hsame
    simpa only [List.findIdx?_map, Function.id_comp] using h
  cases hj : parent.children.findIdx? (Child.isSame m) with
  | none =>
    rw [visibilityIn, visibilityIn, precedingSiblings, precedingSiblings, nodesBefore_eq,
      nodesBefore_eq, hfirst, hj]
    rfl
  | some j =>
    rw [visibilityIn_eq m' parent' outer' (hfirst.trans hj), visibilityIn_eq m parent outer hj,
      foldl_after_eq, foldl_after_eq, List.map_take, List.map_take, hswitch]

theorem map_set_of_eq {α β : Type} {f : α → β} {items : List α} {i : Nat} {a b : α}
    (h : items[i]? = some a) (hf : f b = f a) : (items.set i b).map f = items.map f := by
  have hmap : (items.map f)[i]? = some (f a) := by rw [List.getElem?_map, h, Option.map_some]
  obtain ⟨hlt, heq⟩ := List.getElem?_eq_some_iff.mp hmap
  rw [List.map_set, hf, ← heq, List.set_getElem_self]

/-- What has a node among its children is no visibility statement. -/
theorem Child.switch?_of_mem {n c : Node} (h : .node c ∈ n.children) :
    Child.switch? (.node n) = none := by
  unfold Child.switch?
  split
  · rename_i heq
    cases heq
    simp at h
  · rfl

namespace Node.Alike

variable {n n' : Node} {path : String}

theorem switch? (h : n.Alike n') : Child.switch? (.node n') = Child.switch? (.node n) := by
  cases h with
  | refl => rfl
  | group hgroup position c =>
    obtain ⟨identity, kind, children, line, column⟩ := n
    cases hgroup
    rfl
  | @inside _ c c' position hc hchild =>
    obtain ⟨hlt, -⟩ := List.getElem?_eq_some_iff.mp hc
    rw [Child.switch?_of_mem (List.mem_of_getElem? hc)]
    have hmem : .node c' ∈ (n.withChild position (.node c')).children :=
      List.mem_of_getElem? (List.getElem?_set_self hlt)
    exact Child.switch?_of_mem hmem

theorem isSame (h : n.Alike n') : Child.isSame n' = Child.isSame n := by
  funext c
  cases c with
  | absent | name | literal => rfl
  | node m => rw [Child.isSame, Child.isSame, h.identity]

/-- A node with an alike one in the place of a child is no different to those that look for the
statements before them. -/
theorem visibilityIn_inside {m m' parent : Node} {outer outer' : Scope} {position : Nat}
    (hm : m.Alike m') (hn : n.Alike n') (h : parent.children[position]? = some (.node n)) :
    m'.visibilityIn (parent.withChild position (.node n') :: outer') =
      m.visibilityIn (parent :: outer) := by
  refine visibilityIn_congr ?_ ?_
  · rw [hm.isSame]
    refine map_set_of_eq h ?_
    rw [Child.isSame, Child.isSame, hn.identity]
  · exact map_set_of_eq h hn.switch?

/-- Alike nodes in scopes of alike nodes make the same of themselves. -/
theorem seen_heading {s s' : Scope} (h : n.Alike n') (hscope : List.Forall₂ Node.Alike s s')
    (hresolved : s.Resolved) (hvisibility : n'.visibilityIn s' = n.visibilityIn s) :
    Fault.seen path (n'.heading path s') = Fault.seen path (n.heading path s) := by
  have hline : n'.line = n.line := by
    obtain ⟨children, rfl⟩ := h.eq_withChildren
    rfl
  obtain ⟨groups, -, hsegments⟩ := hresolved.segments
  have hsegments' := (hresolved.segments_alike hscope).trans hsegments
  unfold heading
  rw [h.kind, hline]
  by_cases hkind : n.kind = .group
  · rw [hkind]
    rfl
  · split
    · rfl
    · simp only [typeName, Fault.seen_map, h.seen_typeSegments hkind]
    all_goals
      simp only [method_eq hsegments, method_eq hsegments', Fault.seen_map, Fault.seen_bind,
        h.seen_methodName hkind, h.seen_ownerSegments hkind, h.kind, hline, hvisibility,
        Scope.isSingleton_alike hscope]

end Node.Alike

namespace Scope

/-- The tree in which another node stands at a place, given by the way to it and its scope. -/
def rebuild : List Nat → Scope → Node → Node
  | i :: way, parent :: outer, n => rebuild way outer (parent.withChild i (.node n))
  | _, _, n => n

/-- The scope of a place at which another node stands. -/
def holding : List Nat → Scope → Node → Scope
  | i :: way, parent :: outer, n =>
    parent.withChild i (.node n) :: holding way outer (parent.withChild i (.node n))
  | _, _, _ => []

end Scope

namespace Occurrence

/-- The tree that has another node at this place. -/
def rebuild (o : Occurrence) (n : Node) : Node := Scope.rebuild o.way o.scope n

/-- The scope of this place in the tree that has another node there. -/
def holding (o : Occurrence) (n : Node) : Scope := Scope.holding o.way o.scope n

variable {root : Node} {o : Occurrence}

theorem rebuild_self (ho : o ∈ root.places) :
    o.rebuild o.node = root ∧ o.holding o.node = o.scope := by
  refine Node.occurrences_induction
    (P := fun o => o.rebuild o.node = root ∧ o.holding o.node = o.scope) ⟨rfl, rfl⟩
    (fun parent _ hparent i c hc => ?_) o ho
  simp only [rebuild, holding, Scope.rebuild, Scope.holding, Node.withChild_self hc]
  exact ⟨hparent.1, congrArg _ hparent.2⟩

theorem holding_alike (ho : o ∈ root.places) {n : Node} (h : o.node.Alike n) :
    List.Forall₂ Node.Alike o.scope (o.holding n) := by
  refine Node.occurrences_induction (P := fun o => ∀ n, o.node.Alike n →
    List.Forall₂ Node.Alike o.scope (o.holding n)) (fun _ _ => .nil)
    (fun parent _ hparent i c hc n hn => ?_) o ho n h
  exact .cons (.inside hc hn) (hparent _ (.inside hc hn))

end Occurrence

end RubyOutline
