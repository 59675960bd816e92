import Mathlib.Data.List.Forall2
import RubyOutline.Extraction.Basic
import RubyOutline.Proofs.FeatureListing
import RubyOutline.Proofs.Occurrence

namespace RubyOutline

namespace Node

/-- The name that the receiver of a singleton method puts in the place of the innermost segment;
`self` leaves the path as it is. -/
def receiverName (n : Node) : Except Fault (Option String) := do
  match ← n.childAt 0 with
  | .node receiver =>
    if receiver.kind = .selfRef then return none
    else if receiver.kind = .constant then
      return some (lastSegment (← receiver.constantSegments))
    else .error (.unsupportedReceiver n (.node receiver))
  | receiver => .error (.unsupportedReceiver n receiver)

/-- The name that a node declares, if it is a declaration. The name of a singleton method is looked
at before its receiver. -/
def declared (n : Node) : Except Fault (Option String) :=
  match n.kind.role with
  | .transparent => .ok none
  | .classLike => n.typeName.map some
  | .instanceMethod => n.methodName.map some
  | .staticMethod => do
    let name ← n.methodName
    let _ ← n.receiverName
    return some name

/-- A malformed declaration, which is given up with all that stands inside it. -/
def isRejected (n : Node) : Bool :=
  match n.declared with
  | .error fault => fault.reach == .subtree
  | .ok _ => false

/-- The feature that a node makes by itself, without the features inside it. -/
def heading (path : String) (scope : Scope) (n : Node) : Except Fault (Option Heading) :=
  match n.kind.role with
  | .transparent => .ok none
  | .classLike => n.typeName.map fun name => some (.classLike name (Location.render path n.line))
  | .instanceMethod | .staticMethod => (n.method path scope).map fun m => some (.method m)

/-- Segments of the class that a method belongs to, given those around it. -/
def ownerSegments (n : Node) (names : List String) : Except Fault (List String) :=
  if n.kind = .singletonDef then
    n.receiverName.map fun
      | none => names
      | some receiver => names.dropLast ++ [receiver]
  else .ok names

theorem methodClass_eq {scope : Scope} {names : List String}
    (h : Scope.segments scope = .ok names) (n : Node) :
    n.methodClass scope = (n.ownerSegments names).map Qualified.join := by
  unfold methodClass ownerSegments receiverName
  rw [h]
  split_ifs with hkind
  · cases n.childAt 0 with
    | error fault => rfl
    | ok child =>
      cases child with
      | absent | name | literal => rfl
      | node receiver =>
        by_cases hself : receiver.kind = .selfRef
        · simp [hself, bind, Except.bind, pure, Except.pure, Except.map]
        · by_cases hconst : receiver.kind = .constant
          · cases hseg : receiver.constantSegments <;>
              simp [hconst, hseg, bind, Except.bind, pure, Except.pure, Except.map]
          · simp [hself, hconst, bind, Except.bind, Except.map]
  · rfl

theorem method_eq {scope : Scope} {names : List String} (h : Scope.segments scope = .ok names)
    (path : String) (n : Node) :
    n.method path scope = (do
      let name ← n.methodName
      let owner ← n.ownerSegments names
      return {
        name
        location := Location.render path n.line
        className := Qualified.join owner
        static := n.kind.role == .staticMethod || scope.isSingleton
        visibility := n.visibilityIn scope }) := by
  rw [method, methodClass_eq h]
  cases n.methodName with
  | error fault => rfl
  | ok name => cases n.ownerSegments names <;> rfl

theorem isSome_of_declared {n : Node} {made : Option String}
    (hrole : n.kind.role ≠ .transparent) (h : n.declared = .ok made) : made.isSome = true := by
  unfold declared at h
  split at h
  case h_1 htransparent => exact absurd htransparent hrole
  case h_2 =>
    cases hname : n.typeName <;> rw [hname] at h <;> cases h
    rfl
  case h_3 =>
    cases hname : n.methodName <;> rw [hname] at h <;> cases h
    rfl
  case h_4 =>
    cases hname : n.methodName with
    | error fault =>
      rw [hname] at h
      cases h
    | ok name =>
      cases hreceiver : n.receiverName <;> rw [hname, hreceiver] at h <;> cases h
      rfl

theorem method_ok {path : String} {scope : Scope} {n : Node} {m : Method}
    (h : n.method path scope = .ok m) :
    n.methodName = .ok m.name ∧ n.methodClass scope = .ok m.className ∧
      m.location = Location.render path n.line ∧
      m.static = (n.kind.role == .staticMethod || scope.isSingleton) ∧
      m.visibility = n.visibilityIn scope := by
  rw [method] at h
  cases hname : n.methodName with
  | error fault =>
    rw [hname] at h
    cases h
  | ok name =>
    cases hclass : n.methodClass scope with
    | error fault =>
      rw [hname, hclass] at h
      cases h
    | ok className =>
      rw [hname, hclass] at h
      cases h
      exact ⟨rfl, rfl, rfl, rfl, rfl⟩

theorem heading_location {path : String} {scope : Scope} {n : Node} {heading : Heading}
    (h : n.heading path scope = .ok (some heading)) :
    heading.location = Location.render path n.line := by
  unfold Node.heading at h
  split at h
  case h_1 => cases h
  case h_2 =>
    cases hname : n.typeName <;> rw [hname] at h <;> cases h
    rfl
  case h_3 | h_4 =>
    cases hm : n.method path scope <;> rw [hm] at h <;> cases h
    exact (method_ok hm).2.2.1

/-- Where all classes and modules around a node can be named, its own fault and its own name do not
depend on where it stands. -/
theorem heading_name {scope : Scope} {names : List String} (h : Scope.segments scope = .ok names)
    (path : String) (n : Node) :
    (n.heading path scope).map (Option.map Heading.name) = n.declared := by
  unfold heading declared
  split
  case h_1 => rfl
  case h_2 => cases n.typeName <;> rfl
  case h_3 hrole =>
    have hkind : n.kind ≠ .singletonDef := by
      intro hk
      simp [hk, Kind.role] at hrole
    rw [method_eq h, ownerSegments, if_neg hkind]
    cases n.methodName <;> rfl
  case h_4 hrole =>
    have hkind : n.kind = .singletonDef := by
      cases hk : n.kind <;> simp [hk, Kind.role] at hrole ⊢
    rw [method_eq h, ownerSegments, if_pos hkind]
    cases n.methodName with
    | error fault => rfl
    | ok name => cases n.receiverName <;> rfl

/-- Classes and modules, and no other nodes, make class features. -/
theorem isType_of_heading {path : String} {scope : Scope} {n : Node} {made : Option Heading}
    (h : n.heading path scope = .ok made) : n.kind.isType = made.any Heading.isClass := by
  unfold heading at h
  split at h
  case h_1 hrole =>
    cases h
    cases hk : n.kind <;> simp [hk, Kind.role] at hrole ⊢ <;> rfl
  case h_2 hrole =>
    rw [(Kind.role_eq_classLike_iff n.kind).mp hrole]
    cases hname : n.typeName <;> rw [hname] at h <;> cases h
    rfl
  case h_3 hrole | h_4 hrole =>
    cases hm : n.method path scope <;> rw [hm] at h <;> cases h
    cases hk : n.kind <;> simp [hk, Kind.role] at hrole ⊢
    rfl

/-- A method feature comes from a method node, and its record is that node's. -/
theorem method_of_heading {path : String} {scope : Scope} {n : Node} {m : Method}
    (h : n.heading path scope = .ok (some (.method m))) :
    (n.kind.role = .instanceMethod ∨ n.kind.role = .staticMethod) ∧
      n.method path scope = .ok m := by
  unfold heading at h
  split at h
  case h_1 => cases h
  case h_2 => cases hname : n.typeName <;> rw [hname] at h <;> cases h
  case h_3 hrole =>
    cases hm : n.method path scope <;> rw [hm] at h <;> cases h
    exact ⟨.inl hrole, rfl⟩
  case h_4 hrole =>
    cases hm : n.method path scope <;> rw [hm] at h <;> cases h
    exact ⟨.inr hrole, rfl⟩

theorem nameAt_error {n : Node} {position : Nat} {fault : Fault}
    (h : n.nameAt position = .error fault) : fault.reach = .subtree := by
  unfold nameAt childAt at h
  cases hc : n.children[position]? with
  | none =>
    rw [hc] at h
    cases h
    rfl
  | some child =>
    rw [hc] at h
    cases child with
    | name text =>
      simp only [bind, Except.bind] at h
      split at h <;> cases h
      rfl
    | absent | node | literal =>
      cases h
      rfl

theorem constantScope?_eq_some {n scope : Node} (h : n.constantScope? = some scope) :
    n.children[0]? = some (.node scope) := by
  unfold constantScope? at h
  rw [List.head?_eq_getElem?] at h
  split at h
  · split_ifs at h
    cases h
    assumption
  · cases h

/-- A link of a chain of constants goes on to its first child, ends the chain, or breaks it. -/
theorem segmentsWithin_cases (links : Nat) (n : Node) :
    (∃ (scope : Node) (name : String), n.children[0]? = some (.node scope) ∧
      n.segmentsWithin (links + 1) = (scope.segmentsWithin links).map (· ++ [name])) ∨
    (∃ name, n.segmentsWithin (links + 1) = .ok [name]) ∨
    ∃ fault, n.segmentsWithin (links + 1) = .error fault ∧ fault.reach = .subtree := by
  rw [segmentsWithin]
  split_ifs with hkind
  · cases hname : n.nameAt 1 with
    | error fault => exact .inr (.inr ⟨fault, rfl, nameAt_error hname⟩)
    | ok name =>
      cases hscope : n.constantScope? with
      | none => exact .inr (.inl ⟨name, rfl⟩)
      | some scope =>
        refine .inl ⟨scope, name, constantScope?_eq_some hscope, ?_⟩
        simp only [bind, Except.bind]
        cases scope.segmentsWithin links <;> rfl
  · exact .inr (.inr ⟨_, rfl, rfl⟩)

theorem segmentsWithin_error {links : Nat} {n : Node} {fault : Fault}
    (h : n.segmentsWithin links = .error fault) : fault.reach ≠ .declaration := by
  induction links generalizing n with
  | zero =>
    cases h
    simp [Fault.reach]
  | succ links ih =>
    obtain ⟨scope, name, -, hscope⟩ | ⟨name, hname⟩ | ⟨found, hfound, hreach⟩ :=
      segmentsWithin_cases links n
    · rw [hscope] at h
      cases hrec : scope.segmentsWithin links <;> rw [hrec] at h <;> cases h
      exact ih hrec
    · rw [hname] at h
      cases h
    · rw [hfound] at h
      cases h
      simp [hreach]

/-- The segments of a class or module are those of its first child, which has to be a node. -/
theorem typeSegments_cases (n : Node) :
    (∃ name : Node, n.children[0]? = some (.node name) ∧
      n.typeSegments = name.segmentsWithin maxLinks) ∨
    ∃ fault, n.typeSegments = .error fault ∧ fault.reach = .subtree := by
  unfold typeSegments childAt
  cases n.children[0]? with
  | none => exact .inr ⟨_, rfl, rfl⟩
  | some child =>
    cases child with
    | node name => exact .inl ⟨name, rfl, rfl⟩
    | absent | name | literal => exact .inr ⟨_, rfl, rfl⟩

theorem typeSegments_error {n : Node} {fault : Fault} (h : n.typeSegments = .error fault) :
    fault.reach ≠ .declaration := by
  obtain ⟨name, -, hname⟩ | ⟨found, hfound, hreach⟩ := n.typeSegments_cases
  · rw [hname] at h
    exact segmentsWithin_error h
  · rw [hfound] at h
    cases h
    simp [hreach]

/-- A receiver is `self`, a constant whose last segment counts, or not supported. -/
theorem receiverName_cases (n : Node) :
    (∃ receiver : Node, n.children[0]? = some (.node receiver) ∧
      (receiver.kind = .selfRef ∧ n.receiverName = .ok none ∨
        receiver.kind = .constant ∧
          n.receiverName = (receiver.segmentsWithin maxLinks).map (some ∘ lastSegment))) ∨
    ∃ fault, n.receiverName = .error fault ∧ fault.reach ≠ .file := by
  unfold receiverName childAt
  cases n.children[0]? with
  | none => exact .inr ⟨_, rfl, by simp [Fault.reach]⟩
  | some child =>
    cases child with
    | absent | name | literal => exact .inr ⟨_, rfl, by simp [Fault.reach]⟩
    | node receiver =>
      simp only [bind, Except.bind]
      split_ifs with hself hconstant
      · exact .inl ⟨receiver, rfl, .inl ⟨hself, rfl⟩⟩
      · refine .inl ⟨receiver, rfl, .inr ⟨hconstant, ?_⟩⟩
        rw [constantSegments]
        cases receiver.segmentsWithin maxLinks <;> rfl
      · exact .inr ⟨_, rfl, by simp [Fault.reach]⟩

theorem declared_of_isType {n : Node} (h : n.kind.isType = true) :
    n.declared = n.typeName.map some := by
  rw [declared, (Kind.role_eq_classLike_iff n.kind).mpr h]

/-- A fault of a class or module always costs more than the declaration alone. -/
theorem declared_error_of_isType {n : Node} {fault : Fault} (hkind : n.kind.isType = true)
    (h : n.declared = .error fault) : fault.reach ≠ .declaration := by
  rw [declared_of_isType hkind, typeName] at h
  cases hseg : n.typeSegments with
  | error e =>
    rw [hseg] at h
    cases h
    exact typeSegments_error hseg
  | ok segments =>
    rw [hseg] at h
    cases h

theorem isRejected_of_error {n : Node} {fault : Fault} (h : n.declared = .error fault) :
    n.isRejected = (fault.reach == .subtree) := by
  rw [isRejected, h]

theorem isRejected_of_transparent {n : Node} (h : n.kind.role = .transparent) :
    n.isRejected = false := by
  rw [isRejected, declared, h]

theorem isRejected_of_typeSegments {n : Node} {own : List String} (hkind : n.kind.isType = true)
    (h : n.typeSegments = .ok own) : n.isRejected = false := by
  rw [isRejected, declared_of_isType hkind, typeName, h]
  rfl

/-- What stands inside a node is looked at: nothing is wrong with it but, at most, the receiver. -/
def Entered (n : Node) : Prop := ∀ fault, n.declared = .error fault → fault.reach = .declaration

theorem Entered.isRejected {n : Node} (h : n.Entered) : n.isRejected = false := by
  cases hn : n.declared with
  | error fault =>
    rw [isRejected_of_error hn, h fault hn]
    rfl
  | ok name => rw [Node.isRejected, hn]

theorem Entered.typeSegments {n : Node} (h : n.Entered) (hkind : n.kind.isType = true) :
    ∃ own, n.typeSegments = .ok own := by
  cases hseg : n.typeSegments with
  | ok own => exact ⟨own, rfl⟩
  | error fault =>
    have hfault : n.declared = .error fault := by
      rw [declared_of_isType hkind, typeName, hseg]
      rfl
    exact absurd (h fault hfault) (typeSegments_error hseg)

end Node

namespace Scope

/-- Every class or module in the scope can be named. -/
def Resolved (scope : Scope) : Prop :=
  ∀ n ∈ scope, n.kind.isType = true → ∃ own, n.typeSegments = .ok own

/-- The segments of a scope are those of its classes and modules, from the outside in. -/
theorem Resolved.segments {scope : Scope} (h : scope.Resolved) :
    ∃ groups, List.Forall₂ (fun n group => n.typeSegments = .ok group)
      (scope.reverse.filter (·.kind.isType)) groups ∧
        Scope.segments scope = .ok groups.flatten := by
  induction scope with
  | nil => exact ⟨[], .nil, rfl⟩
  | cons n outer ih =>
    obtain ⟨groups, hgroups, hsegments⟩ := ih fun m hm => h m (List.mem_cons_of_mem _ hm)
    rw [List.reverse_cons, List.filter_append, List.filter_singleton, Scope.segments, hsegments]
    by_cases hkind : n.kind.isType = true
    · obtain ⟨own, hown⟩ := h n (by simp) hkind
      refine ⟨groups ++ [own], ?_, ?_⟩
      · rw [hkind]
        exact List.rel_append hgroups (.cons hown .nil)
      · simp [hkind, hown, bind, Except.bind, pure, Except.pure]
    · refine ⟨groups, ?_, ?_⟩
      · simpa [hkind] using hgroups
      · simp [hkind, bind, Except.bind, pure, Except.pure]

end Scope

namespace Occurrence

abbrev depth (o : Occurrence) : Nat := o.scope.length

/-- What a place contributes. At the depth limit no declaration is looked at any more. -/
def declared (o : Occurrence) : Except Fault (Option String) :=
  if Fault.maxDepth ≤ o.depth then .error (.nestedTooDeep o.node) else o.node.declared

def fault? (o : Occurrence) : Option Fault :=
  match o.declared with
  | .error fault => some fault
  | .ok _ => none

def name? (o : Occurrence) : Option String :=
  match o.declared with
  | .error _ => none
  | .ok name => name

/-- The chain of constants in a name is too long, so that the whole tree is given up. -/
def overflows (o : Occurrence) : Bool := o.fault?.any (·.reach == .file)

/-- Nothing around a place is malformed, and the place is not below the depth limit. -/
def isVisited (o : Occurrence) : Bool :=
  o.depth ≤ Fault.maxDepth && o.scope.all (!·.isRejected)

theorem isVisited_iff {o : Occurrence} : o.isVisited = true ↔
    o.scope.length ≤ Fault.maxDepth ∧ ∀ a ∈ o.scope, a.isRejected = false := by
  simp [isVisited]

end Occurrence

namespace Node

def visited (root : Node) : List Occurrence := root.places.filter Occurrence.isVisited

/-- The places of the declarations that become features. -/
def declarations (root : Node) : List Occurrence := root.visited.filter (·.name?.isSome)

theorem filter_occurrences {way : List Nat} {scope : Scope} {n : Node}
    (hdepth : scope.length ≤ Fault.maxDepth) (hscope : ∀ a ∈ scope, a.isRejected = false) :
    (n.occurrences way scope).filter Occurrence.isVisited = ⟨way, scope, n⟩ ::
      (occurrencesAll way 0 (n :: scope) n.children).filter Occurrence.isVisited := by
  have hvisited : Occurrence.isVisited ⟨way, scope, n⟩ = true :=
    Occurrence.isVisited_iff.mpr ⟨hdepth, hscope⟩
  rw [occurrences_eq, List.filter_cons_of_pos hvisited]

/-- Nothing is visited below the depth limit or inside a malformed declaration. -/
theorem filter_occurrencesAll_eq_nil {way : List Nat} {index : Nat} {scope : Scope}
    {children : List Child}
    (h : Fault.maxDepth < scope.length ∨ ∃ a ∈ scope, a.isRejected = true) :
    (occurrencesAll way index scope children).filter Occurrence.isVisited = [] := by
  rw [List.filter_eq_nil_iff]
  intro o ho hvisited
  obtain ⟨i, c, -, ho⟩ := mem_occurrencesAll.mp ho
  have hsuffix := (suffix_of_mem_occurrences ho).2
  rw [Occurrence.isVisited_iff] at hvisited
  rcases h with hdeep | ⟨a, ha, hrejected⟩
  · have := hsuffix.length_le
    omega
  · rw [hvisited.2 a (hsuffix.subset ha)] at hrejected
    cases hrejected

end Node

end RubyOutline
