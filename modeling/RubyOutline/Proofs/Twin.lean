import RubyOutline.Proofs.SiblingIdentity
import RubyOutline.Proofs.Transparency

namespace RubyOutline

/-- Children in the same place of two nodes. Names and values are equal, nodes are related, and an
empty group is as good as nothing. -/
inductive Child.Pairs (R : Node → Node → Prop) : Child → Child → Prop where
  | absent : Pairs R .absent .absent
  | name (text : String) : Pairs R (.name text) (.name text)
  | literal (value : Literal) : Pairs R (.literal value) (.literal value)
  | node {n n' : Node} (h : R n n') : Pairs R (.node n) (.node n')
  | emptied {g : Node} (hkind : g.kind = .group) (hempty : g.children = []) :
      Pairs R (.node g) .absent
  | filled {g : Node} (hkind : g.kind = .group) (hempty : g.children = []) :
      Pairs R .absent (.node g)

/-- The line of the first child, where that is a node. -/
def Child.firstLine? (children : List Child) : Option Int :=
  (children.head?.bind Child.node?).map Node.line

namespace Node

/-- Nodes that look the same from outside. Only groups may be moved, and a first child that is a
name or a receiver is there in both. -/
structure Resembles (n n' : Node) : Prop where
  kind : n'.kind = n.kind
  line : n.kind ≠ .group → n'.line = n.line
  first : n.kind.readsFirst = true ∨ n.kind = .call →
    Child.firstLine? n'.children = Child.firstLine? n.children
  apart : n.children.Pairwise Child.Apart
  apart' : n'.children.Pairwise Child.Apart

/-- Trees whose nodes look the same, place by place. -/
inductive Twin : Node → Node → Prop where
  | mk {n n' : Node} (hresembles : Resembles n n')
      (hchildren : List.Forall₂ (Child.Pairs Twin) n.children n'.children) : Twin n n'

end Node

/-- The diagnostic says that the tree is too deep. -/
def Diagnostic.isTooDeep (d : Diagnostic) : Bool :=
  d.message == "syntax tree nested deeper than " ++ toString Fault.maxDepth ++ " levels"

/-- The second extraction has the same features as the first one and, unless a tree was too deep,
the same diagnostics. -/
def Extraction.Agrees (e e' : Extraction) : Prop :=
  e'.features = e.features ∧
    ((∀ d ∈ e.diagnostics ++ e'.diagnostics, d.isTooDeep = false) →
      e'.diagnostics = e.diagnostics)

namespace Walk

/-- A walk without the diagnostics about the depth of the tree. -/
def shallow : Walk → Walk
  | .finished features diagnostics => .finished features (diagnostics.filter (!·.isTooDeep))
  | .abandoned diagnostics => .abandoned (diagnostics.filter (!·.isTooDeep))

theorem shallow_andThen (u v : Walk) : (u.andThen v).shallow = u.shallow.andThen v.shallow := by
  cases u <;> cases v <;> simp [andThen, shallow]

theorem shallow_within (name location : String) (w : Walk) :
    (w.within name location).shallow = w.shallow.within name location := by
  cases w <;> rfl

theorem shallow_frame_congr {made : Except (Reach × Diagnostic) (Option Heading)} {w w' : Walk}
    (h : w'.shallow = w.shallow) : (frame made w').shallow = (frame made w).shallow := by
  cases made with
  | error e =>
    obtain ⟨reach, diagnostic⟩ := e
    cases reach with
    | declaration => rw [frame, frame, shallow_andThen, shallow_andThen, h]
    | subtree | file => rfl
  | ok made =>
    cases made with
    | none => exact h
    | some heading =>
      cases heading with
      | classLike name location => rw [frame, frame, shallow_within, shallow_within, h]
      | method m => rw [frame, frame, shallow_andThen, shallow_andThen, h]

end Walk

theorem forall₂_getElem? {α β : Type} {R : α → β → Prop} {items : List α} {items' : List β}
    (h : List.Forall₂ R items items') (i : Nat) : Option.Rel R items[i]? items'[i]? := by
  induction h generalizing i with
  | nil => exact .none
  | cons hfirst _ ih =>
    cases i with
    | zero => exact .some hfirst
    | succ i => exact ih i

/-- A fault shows by its reach, its kind, its message and the line that it names. -/
theorem Fault.seen_error_congr {α : Type} {path : String} {fault fault' : Fault}
    (hreach : fault'.reach = fault.reach) (hkind : fault'.kind = fault.kind)
    (hmessage : fault'.message = fault.message)
    (hline : fault'.node?.map Node.line = fault.node?.map Node.line) :
    Fault.seen path (.error fault' : Except Fault α) = Fault.seen path (.error fault) := by
  simp only [Fault.seen, Except.mapError, Diagnostic.ofFault, Diagnostic.located, hreach, hkind,
    hmessage, hline]

namespace Node.Twin

variable {path : String} {n n' : Node}

theorem resembles (h : n.Twin n') : n.Resembles n' := by
  cases h with
  | mk hresembles _ => exact hresembles

theorem children (h : n.Twin n') : List.Forall₂ (Child.Pairs Twin) n.children n'.children := by
  cases h with
  | mk _ hchildren => exact hchildren

theorem kind (h : n.Twin n') : n'.kind = n.kind := h.resembles.kind

theorem childAt? (h : n.Twin n') (position : Nat) :
    Option.Rel (Child.Pairs Twin) n.children[position]? n'.children[position]? :=
  forall₂_getElem? h.children position

section Faults

variable {α : Type} (h : n.Twin n') (hline : n'.line = n.line)

include h hline

theorem seen_missingChild (position : Nat) :
    Fault.seen path (.error (.missingChild n' position) : Except Fault α) =
      Fault.seen path (.error (.missingChild n position)) := by
  refine Fault.seen_error_congr rfl rfl ?_ (congrArg some hline)
  unfold Fault.message
  simp only [h.kind]

theorem seen_missingName (position : Nat) :
    Fault.seen path (.error (.missingName n' position) : Except Fault α) =
      Fault.seen path (.error (.missingName n position)) := by
  refine Fault.seen_error_congr rfl rfl ?_ (congrArg some hline)
  unfold Fault.message
  simp only [h.kind]

theorem seen_missingConstant :
    Fault.seen path (.error (.missingConstant n') : Except Fault α) =
      Fault.seen path (.error (.missingConstant n)) := by
  refine Fault.seen_error_congr rfl rfl ?_ (congrArg some hline)
  unfold Fault.message
  simp only [h.kind]

end Faults

theorem seen_nameAt (h : n.Twin n') (hline : n'.line = n.line) (position : Nat) :
    Fault.seen path (n'.nameAt position) = Fault.seen path (n.nameAt position) := by
  have hchild := h.childAt? position
  unfold nameAt Node.childAt
  generalize n.children[position]? = c at hchild ⊢
  generalize n'.children[position]? = c' at hchild ⊢
  simp only [bind, Except.bind]
  cases hchild with
  | none => exact h.seen_missingChild hline position
  | some hc =>
    cases hc with
    | absent | literal | node | emptied | filled => exact h.seen_missingName hline position
    | name text =>
      simp only
      split
      · exact h.seen_missingName hline position
      · rfl

theorem line_of_ne_group (h : n.Twin n') (hkind : n.kind ≠ .group) : n'.line = n.line :=
  h.resembles.line hkind

/-- The constant in front of another is the twin of that in the other tree, and at its line. -/
theorem constantScope? (h : n.Twin n') :
    Option.Rel (fun scope scope' => scope.Twin scope' ∧ scope'.line = scope.line)
      n.constantScope? n'.constantScope? := by
  have hchild := h.childAt? 0
  unfold Node.constantScope?
  rw [List.head?_eq_getElem?, List.head?_eq_getElem?]
  generalize n.children[0]? = c at hchild ⊢
  generalize n'.children[0]? = c' at hchild ⊢
  cases hchild with
  | none => exact .none
  | some hc =>
    cases hc with
    | absent | name | literal => exact .none
    | emptied hkind | filled hkind =>
      simp only [hkind]
      exact .none
    | node hn =>
      simp only [hn.kind]
      split
      · -- a constant is no group, so it has not been moved
        rename_i hconstant
        exact .some ⟨hn, hn.line_of_ne_group (by simp [hconstant])⟩
      · exact .none

theorem seen_segmentsWithin (h : n.Twin n') (hline : n'.line = n.line) (links : Nat) :
    Fault.seen path (n'.segmentsWithin links) = Fault.seen path (n.segmentsWithin links) := by
  induction links generalizing n n' with
  | zero => rfl
  | succ links ih =>
    rw [segmentsWithin, segmentsWithin, h.kind]
    split
    · rw [Fault.seen_bind, Fault.seen_bind, h.seen_nameAt hline]
      congr
      funext name
      have hscope := h.constantScope?
      generalize n.constantScope? = scope at hscope ⊢
      generalize n'.constantScope? = scope' at hscope ⊢
      cases hscope with
      | none => rfl
      | some hs => simp only [Fault.seen_bind, ih hs.1 hs.2]
    · exact Fault.seen_error_congr rfl rfl rfl (congrArg some hline)

/-- A first child that counts is a node in both trees or in neither, and then at the same line. -/
theorem first_cases (h : n.Twin n') (hfirst : n.kind.readsFirst = true ∨ n.kind = .call) :
    (∃ first first' : Node, n.children[0]? = some (.node first) ∧
      n'.children[0]? = some (.node first') ∧ first.Twin first' ∧ first'.line = first.line) ∨
    n'.children[0]? = n.children[0]? ∧ ∀ first : Node, n.children[0]? ≠ some (.node first) := by
  have hline := h.resembles.first hfirst
  have hchild := h.childAt? 0
  unfold Child.firstLine? at hline
  rw [List.head?_eq_getElem?, List.head?_eq_getElem?] at hline
  generalize n.children[0]? = c at hchild hline ⊢
  generalize n'.children[0]? = c' at hchild hline ⊢
  cases hchild with
  | none => exact .inr ⟨rfl, by simp⟩
  | some hc =>
    cases hc with
    | absent | name | literal => exact .inr ⟨rfl, by simp⟩
    | emptied | filled => simp [Child.node?] at hline
    | @node first first' hn =>
      exact .inl ⟨first, first', rfl, rfl, hn, by simpa [Child.node?] using hline⟩

theorem seen_typeSegments (h : n.Twin n') (hkind : n.kind.isType = true) :
    Fault.seen path n'.typeSegments = Fault.seen path n.typeSegments := by
  have hreads : n.kind.readsFirst = true ∧ n.kind ≠ .group := by
    cases hk : n.kind <;> simp [hk, Kind.isType, Kind.readsFirst] at hkind ⊢
  have hline := h.line_of_ne_group hreads.2
  unfold typeSegments Node.childAt
  rcases h.first_cases (.inl hreads.1) with ⟨first, first', hc, hc', hn, hsame⟩ | ⟨hc, hno⟩
  · rw [hc, hc']
    exact hn.seen_segmentsWithin hsame maxLinks
  · rw [hc]
    cases hfound : n.children[0]? with
    | none => exact h.seen_missingChild hline 0
    | some c =>
      cases c with
      | absent | name | literal => exact h.seen_missingConstant hline
      | node first => exact absurd hfound (hno first)

theorem seen_receiverName (h : n.Twin n') (hkind : n.kind = .singletonDef) :
    Fault.seen path n'.receiverName = Fault.seen path n.receiverName := by
  have hline := h.line_of_ne_group (by simp [hkind])
  have hreads : n.kind.readsFirst = true := by rw [hkind, Kind.readsFirst]
  unfold receiverName Node.childAt
  simp only [bind, Except.bind]
  rcases h.first_cases (.inl hreads) with ⟨first, first', hc, hc', hn, hsame⟩ | ⟨hc, hno⟩
  · have hlast : Fault.seen path (first'.constantSegments.map fun s => some (lastSegment s)) =
        Fault.seen path (first.constantSegments.map fun s => some (lastSegment s)) := by
      rw [Fault.seen_map, Fault.seen_map]
      exact congrArg _ (hn.seen_segmentsWithin hsame maxLinks)
    rw [hc, hc']
    simp only [hn.kind]
    split
    · rfl
    · split
      · exact hlast
      · refine Fault.seen_error_congr rfl rfl ?_ (congrArg some hline)
        unfold Fault.message
        simp only [Child.shape, hn.kind]
  · rw [hc]
    cases hfound : n.children[0]? with
    | none => exact h.seen_missingChild hline 0
    | some c =>
      cases c with
      | absent | name | literal => exact Fault.seen_error_congr rfl rfl rfl (congrArg some hline)
      | node first => exact absurd hfound (hno first)

theorem seen_methodName (h : n.Twin n') (hline : n'.line = n.line) :
    Fault.seen path n'.methodName = Fault.seen path n.methodName := by
  rw [methodName, methodName, h.kind]
  split
  · exact h.seen_nameAt hline 1
  · exact h.seen_nameAt hline 0

theorem declaresAs (h : n.Twin n') (hkind : n.kind ≠ .group) : DeclaresAs path n n' where
  kind := h.kind
  line := h.line_of_ne_group hkind
  typeSegments := h.seen_typeSegments
  methodName := h.seen_methodName (h.line_of_ne_group hkind)
  receiverName := h.seen_receiverName

/-- A call of a word alone is one in both trees. -/
theorem children_eq_word_iff (h : n.Twin n') (hcall : n.kind = .call) (word : String) :
    n'.children = [.absent, .name word] ↔ n.children = [.absent, .name word] := by
  have hfirst := h.first_cases (.inr hcall)
  have hchildren := h.children
  generalize n.children = cs at hfirst hchildren ⊢
  generalize n'.children = cs' at hfirst hchildren ⊢
  constructor
  · rintro rfl
    rcases hfirst with ⟨_, _, _, hc, _⟩ | ⟨hc, -⟩
    · simp at hc
    · obtain _ | ⟨-, _ | ⟨hword, ⟨⟩⟩⟩ := hchildren
      cases hword
      simpa using hc.symm
  · rintro rfl
    rcases hfirst with ⟨_, _, hc, _⟩ | ⟨hc, -⟩
    · simp at hc
    · obtain _ | ⟨-, _ | ⟨hword, ⟨⟩⟩⟩ := hchildren
      cases hword
      simpa using hc

end Node.Twin

theorem Child.switch?_eq_none {n : Node}
    (h : n.kind = .call → ∀ word, n.children ≠ [.absent, .name word]) :
    Child.switch? (.node n) = none := by
  unfold Child.switch?
  split
  · rename_i heq
    cases heq
    exact absurd rfl (h rfl _)
  · rfl

theorem Child.switch?_of_word {n : Node} {word : String} (hkind : n.kind = .call)
    (hchildren : n.children = [.absent, .name word]) :
    Child.switch? (.node n) = Visibility.ofLabel? word := by
  rw [Child.switch?_eq, Child.node?, Option.bind_some, Node.bareVisibility?, hkind, hchildren]

namespace Child.Pairs

variable {c c' : Child}

theorem switch? (h : c.Pairs Node.Twin c') : c'.switch? = c.switch? := by
  cases h with
  | absent | name | literal => rfl
  | emptied hkind | filled hkind =>
    rw [Child.switch?_eq_none fun hcall => by simp [hkind] at hcall]
    rfl
  | @node n n' h =>
    by_cases hword : n.kind = .call ∧ ∃ word, n.children = [.absent, .name word]
    · obtain ⟨hcall, word, hchildren⟩ := hword
      rw [Child.switch?_of_word hcall hchildren, Child.switch?_of_word (h.kind.trans hcall)
        ((h.children_eq_word_iff hcall word).mpr hchildren)]
    · have hno : n.kind = .call → ∀ word, n.children ≠ [.absent, .name word] :=
        fun hcall word heq => hword ⟨hcall, word, heq⟩
      rw [Child.switch?_eq_none hno, Child.switch?_eq_none fun hcall word heq => ?_]
      rw [h.kind] at hcall
      exact hno hcall word ((h.children_eq_word_iff hcall word).mp heq)

end Child.Pairs

namespace Node.Twin

variable {path : String} {n n' : Node} {s s' : Scope}

/-- Twins in the same place of twins have the same visibility. -/
theorem visibilityIn (h : n.Twin n') {i : Nat} {m m' : Node} (hm : n.children[i]? = some (.node m))
    (hm' : n'.children[i]? = some (.node m')) (outer outer' : Scope) :
    m'.visibilityIn (n' :: outer') = m.visibilityIn (n :: outer) := by
  refine visibilityIn_congr ?_ ?_
  · rw [Child.map_isSame h.resembles.apart hm, Child.map_isSame h.resembles.apart' hm',
      h.children.length_eq]
  · have hswitch : List.Forall₂ (· = ·) (n.children.map Child.switch?)
        (n'.children.map Child.switch?) := by
      rw [List.forall₂_map_left_iff, List.forall₂_map_right_iff]
      exact h.children.imp fun c c' hc => (Child.Pairs.switch? hc).symm
    rw [List.forall₂_eq_eq_eq] at hswitch
    exact hswitch.symm

end Node.Twin

theorem Scope.isSingleton_of_kinds {s s' : Scope} (h : s'.map Node.kind = s.map Node.kind) :
    s'.isSingleton = s.isSingleton := by
  obtain _ | ⟨parent, _ | ⟨grandparent, outer⟩⟩ := s <;>
    obtain _ | ⟨parent', _ | ⟨grandparent', outer'⟩⟩ := s' <;> simp at h
  · rfl
  · simp only [Scope.isSingleton, h]
  · simp only [Scope.isSingleton, h.1, h.2.1]

/-- Nodes that declare the same make the same feature of themselves in blocks that say the same
about them. -/
theorem Node.DeclaresAs.seen_heading {path : String} {n n' : Node} {s s' : Scope}
    (h : DeclaresAs path n n') (hscope : s.Agrees s') (hsingleton : s'.isSingleton = s.isSingleton)
    (hvisibility : n'.visibilityIn s' = n.visibilityIn s) :
    Fault.seen path (n'.heading path s') = Fault.seen path (n.heading path s) := by
  obtain ⟨hresolved, hsame⟩ := hscope
  obtain ⟨groups, -, hsegments⟩ := hresolved.segments
  have hmethod : Fault.seen path (n'.method path s') = Fault.seen path (n.method path s) := by
    rw [method_eq hsegments, method_eq (hsame.trans hsegments)]
    simp only [Fault.seen_bind, h.methodName, h.ownerSegments, h.line, h.kind, hsingleton,
      hvisibility]
  unfold heading
  rw [h.kind]
  cases hrole : n.kind.role with
  | transparent => rfl
  | classLike =>
    have htype := (Kind.role_eq_classLike_iff n.kind).mp hrole
    simp only [typeName, Fault.seen_map, h.typeSegments htype, h.line]
  | instanceMethod | staticMethod => simp only [Fault.seen_map, hmethod]

namespace Node.Twin

variable {path : String} {n n' : Node} {s s' : Scope}

theorem seen_heading (h : n.Twin n') (hscope : s.Agrees s')
    (hkinds : s'.map Node.kind = s.map Node.kind)
    (hvisibility : n'.visibilityIn s' = n.visibilityIn s) :
    Fault.seen path (n'.heading path s') = Fault.seen path (n.heading path s) := by
  by_cases hgroup : n.kind = .group
  · rw [heading, heading, h.kind, hgroup]
    rfl
  · exact (h.declaresAs hgroup).seen_heading hscope (Scope.isSingleton_of_kinds hkinds) hvisibility

theorem agrees (h : n.Twin n') (hscope : s.Agrees s') (hentered : n.Entered) :
    Scope.Agrees (n :: s) (n' :: s') := by
  by_cases hgroup : n.kind = .group
  · have hresolved := hentered.resolved hscope.1
    refine ⟨hresolved, ?_⟩
    rw [Scope.segments, Scope.segments, h.kind, hgroup, hscope.2]
    rfl
  · have hdeclares : DeclaresAs "" n n' := h.declaresAs hgroup
    exact hdeclares.agrees hscope hentered

end Node.Twin

/-- An empty group adds nothing but, at most, that it is too deep. -/
theorem Node.shallow_walk_of_empty {g : Node} (hkind : g.kind = .group) (hempty : g.children = [])
    (path : String) (scope : Scope) : (g.walk path scope).shallow = .empty := by
  have hheading : g.heading path scope = .ok none := by
    rw [heading, hkind]
    rfl
  rw [walk_eq_frame]
  split
  · rfl
  · rw [hheading, hempty]
    rfl

theorem Node.shallow_walkAll {path : String} {s s' : Scope} {children children' : List Child}
    (h : List.Forall₂
      (Child.Pairs fun n n' => (n'.walk path s').shallow = (n.walk path s).shallow)
      children children') :
    (walkAll path s' children').shallow = (walkAll path s children).shallow := by
  induction h with
  | nil => rw [walkAll, walkAll]
  | cons hc _ ih =>
    cases hc with
    | absent | name | literal => rw [walkAll_skip _ _ rfl, walkAll_skip _ _ rfl, ih]
    | node hn => rw [walkAll, walkAll, Walk.shallow_andThen, Walk.shallow_andThen, hn, ih]
    | emptied hkind hempty =>
      rw [walkAll_skip _ _ rfl, walkAll, Walk.shallow_andThen, shallow_walk_of_empty hkind hempty,
        Walk.empty_andThen, ih]
    | filled hkind hempty =>
      rw [walkAll, walkAll_skip _ _ rfl, Walk.shallow_andThen, shallow_walk_of_empty hkind hempty,
        Walk.empty_andThen, ih]

/-- Pairs of nodes one by one, with their place. -/
theorem Child.Pairs.imp_at {R Q : Node → Node → Prop} {children children' : List Child}
    (h : List.Forall₂ (Child.Pairs R) children children')
    (himp : ∀ (i : Nat) (n n' : Node), children[i]? = some (.node n) →
      children'[i]? = some (.node n') → R n n' → Q n n') :
    List.Forall₂ (Child.Pairs Q) children children' := by
  induction h with
  | nil => exact .nil
  | cons hc _ ih =>
    refine .cons ?_ (ih fun i n n' hn hn' => himp (i + 1) n n' hn hn')
    cases hc with
    | absent => exact .absent
    | name text => exact .name text
    | literal value => exact .literal value
    | node hn => exact .node (himp 0 _ _ rfl rfl hn)
    | emptied hkind hempty => exact .emptied hkind hempty
    | filled hkind hempty => exact .filled hkind hempty

/-- The two walks side by side. The scopes have the same kinds of nodes and the same class path. -/
theorem Node.Twin.shallow_walk {path : String} {n n' : Node} {s s' : Scope} (h : n.Twin n')
    (hscope : s.Agrees s') (hkinds : s'.map Node.kind = s.map Node.kind)
    (hvisibility : n'.visibilityIn s' = n.visibilityIn s) :
    (n'.walk path s').shallow = (n.walk path s).shallow := by
  induction n using Node.childInduction generalizing n' s s' with
  | step n ih =>
    have hlength : s'.length = s.length := by
      rw [← List.length_map Node.kind, hkinds, List.length_map]
    rw [walk_eq_frame, walk_eq_frame, hlength, h.seen_heading hscope hkinds hvisibility]
    split
    · rfl
    · rcases frame_cases path n hscope.1 with ⟨-, d, hframe⟩ | hframe | ⟨hentered, -⟩
      · rw [hframe]
      · rw [hframe]
      · -- what is found inside counts only here, where all names around it are known
        refine Walk.shallow_frame_congr (shallow_walkAll ?_)
        refine Child.Pairs.imp_at h.children fun i m m' hm hm' hpair => ?_
        exact ih m (List.mem_of_getElem? hm) hpair (h.agrees hscope hentered)
          (by rw [List.map_cons, List.map_cons, h.kind, hkinds]) (h.visibilityIn hm hm' s s')

theorem Diagnostic.filter_isTooDeep {ds : List Diagnostic}
    (h : ∀ d ∈ ds, d.isTooDeep = false) : ds.filter (!·.isTooDeep) = ds :=
  List.filter_eq_self.mpr fun d hd => by rw [h d hd, Bool.not_false]

/-- Twin trees at the same line have the same features. -/
theorem Node.Twin.extract_agrees {tree tree' : Node} (h : tree.Twin tree')
    (hline : tree'.line = tree.line) (path : String) :
    (extract path (.node tree)).Agrees (extract path (.node tree')) := by
  have hnothing : Scope.Agrees [] [] := ⟨fun a ha => absurd ha List.not_mem_nil, rfl⟩
  have hwalk : (tree'.walk path []).shallow = (tree.walk path []).shallow :=
    h.shallow_walk hnothing rfl rfl
  have hroot : Diagnostic.ofFault path (.untraversable tree') =
      Diagnostic.ofFault path (.untraversable tree) := by
    simp only [Diagnostic.ofFault, Diagnostic.located, Fault.node?, Option.map_some, hline]
    rfl
  rw [extract, extract, Extraction.Agrees]
  cases hw : tree.walk path [] with
  | finished fs ds =>
    cases hw' : tree'.walk path [] with
    | abandoned ds' => simp [hw, hw', Walk.shallow] at hwalk
    | finished fs' ds' =>
      rw [hw, hw', Walk.shallow, Walk.shallow, Walk.finished.injEq] at hwalk
      refine ⟨hwalk.1, fun hdeep => ?_⟩
      simp only [List.forall_mem_append] at hdeep
      have hsame := hwalk.2
      rwa [Diagnostic.filter_isTooDeep hdeep.1, Diagnostic.filter_isTooDeep hdeep.2] at hsame
  | abandoned ds =>
    cases hw' : tree'.walk path [] with
    | finished fs' ds' => simp [hw, hw', Walk.shallow] at hwalk
    | abandoned ds' =>
      rw [hw, hw', Walk.shallow, Walk.shallow, Walk.abandoned.injEq] at hwalk
      refine ⟨rfl, fun hdeep => ?_⟩
      simp only [List.forall_mem_append] at hdeep
      rw [Diagnostic.filter_isTooDeep hdeep.1.1, Diagnostic.filter_isTooDeep hdeep.2.1] at hwalk
      rw [hwalk, hroot]

end RubyOutline
