import RubyOutline.Proofs.Block
import RubyOutline.Proofs.Isolation

namespace RubyOutline

namespace Child

/-- A place for a node, which may be empty. -/
def isPlace : Child → Bool
  | .absent | .node _ => true
  | .name _ | .literal _ => false

/-- A place for a name, which may be empty. -/
def isWord : Child → Bool
  | .absent | .name _ => true
  | .node _ | .literal _ => false

def isNode (c : Child) : Bool := c.node?.isSome

def isName (c : Child) : Bool := c.name?.isSome

@[simp] theorem isPlace_ofNode? (found : Option Node) : (ofNode? found).isPlace = true := by
  cases found <;> rfl

@[simp] theorem isWord_ofName? (found : Option String) : (ofName? found).isWord = true := by
  cases found <;> rfl

end Child

namespace Kind

/-- The children that a node of a kind has, each in its place. -/
def takes : Kind → List Child → Bool
  | .classDef, [name, superclass, body] => name.isPlace && superclass.isPlace && body.isPlace
  | .moduleDef, [name, body] => name.isPlace && body.isPlace
  | .singletonClass, [value, body] => value.isPlace && body.isPlace
  | .methodDef, [name, parameters, body] => name.isWord && parameters.isPlace && body.isPlace
  | .singletonDef, [receiver, name, parameters, body] =>
    receiver.isPlace && name.isWord && parameters.isPlace && body.isPlace
  | .call, receiver :: selector :: arguments =>
    receiver.isPlace && selector.isName && arguments.all Child.isNode
  | .constant, [scope, name] => scope.isPlace && name.isWord
  | .selfRef, [] => true
  | .group, children | .beginBlock, children | .other, children => children.all Child.isNode
  | _, _ => false

/-- The least number of children that a node of a kind has. -/
def leastChildren : Kind → Nat
  | .singletonDef => 4
  | .classDef | .methodDef => 3
  | .moduleDef | .singletonClass | .call | .constant => 2
  | .selfRef | .group | .beginBlock | .other => 0

theorem leastChildren_le {kind : Kind} {children : List Child} (h : kind.takes children = true) :
    kind.leastChildren ≤ children.length := by
  unfold takes at h
  split at h <;> simp_all [leastChildren]

end Kind

namespace ParseTree

variable {source : List UInt8} {statement : Bool} {identity : Identity} {root t : ParseTree}

theorem all_isNode_lowerWhere (keep : ParseTree → Bool) (index : Nat) (trees : List ParseTree) :
    (lowerWhere source keep statement identity index trees).all Child.isNode = true := by
  rw [List.all_eq_true]
  intro c hc
  obtain ⟨i, child, n, -, -, -, rfl⟩ := mem_lowerWhere.mp hc
  rfl

theorem all_isNode_argumentsIn : (t.argumentsIn source identity).all Child.isNode = true := by
  rw [argumentsIn]
  cases t.fieldAt? "arguments" with
  | none => rfl
  | some found => exact all_isNode_lowerWhere _ _ _

/-- Whatever fields are missing, repeated or filled by comments: each form has all its places. -/
theorem takes_of_form {kind : Kind} {places : List Child}
    (h : t.form source statement identity = some (kind, places)) : kind.takes places = true := by
  have hinside (statement : Bool) := @all_isNode_lowerWhere source statement identity
    (·.named) 0 t.children
  rw [form] at h
  cases htype : Form.ofType t.type with
  | comment => simp [htype] at h
  | call =>
    rw [htype] at h
    cases h
    have hblock (found : Option Node) : (found.toList.map Child.node).all Child.isNode = true := by
      cases found <;> rfl
    simp [Kind.takes, Child.isName, Child.name?, all_isNode_argumentsIn, hblock, -List.all_map]
  | identifier =>
    rw [htype] at h
    cases statement with
    | true =>
      cases h
      rfl
    | false =>
      cases h
      exact hinside false
  | plain =>
    rw [htype] at h
    cases h
    obtain hkind | hkind | hkind := Form.plainKind_cases t.type
    all_goals
      rw [hkind]
      exact hinside _
  | constant | selfRef =>
    rw [htype] at h
    cases h
    rfl
  | _ =>
    rw [htype] at h
    cases h
    simp [Kind.takes]

namespace Origin

variable {n : Node}

theorem takes (h : Origin source root n) : n.kind.takes n.children = true := by
  rcases h with ⟨t, statement, -, hn⟩ | ⟨path, t, first, -, -, rfl⟩
  · rw [lower_eq] at hn
    obtain ⟨⟨kind, places⟩, hform, hn⟩ := Option.map_eq_some_iff.mp hn
    rw [← hn]
    exact takes_of_form hform
  · exact all_isNode_lowerWhere _ _ _

/-- A group that has no parse tree of its own stands where its first statement does. -/
theorem line (h : Origin source root n) :
    ∃ (path : Identity) (t : ParseTree), root.at? path = some t ∧ n.line = t.row + 1 := by
  rcases h with ⟨t, statement, ht, hn⟩ | ⟨path, t, first, ht, hfirst, rfl⟩
  · rw [lower_eq] at hn
    obtain ⟨⟨kind, places⟩, -, hn⟩ := Option.map_eq_some_iff.mp hn
    rw [← hn] at ht ⊢
    exact ⟨_, t, ht, rfl⟩
  · obtain ⟨i, hi⟩ := List.getElem?_of_mem hfirst
    refine ⟨i :: path, first, ?_, rfl⟩
    rw [at?, ht, Option.bind_some, hi]

end Origin

end ParseTree

/-- The fault tells of a child that is not there at all, or of a root that is no node. -/
def Fault.isOfLayout : Fault → Bool
  | .missingChild _ _ | .rootNotNode _ => true
  | _ => false

namespace Node

theorem isOfLayout_of_nameAt {n : Node} {position : Nat} {fault : Fault}
    (hlt : position < n.children.length) (h : n.nameAt position = .error fault) :
    fault.isOfLayout = false := by
  unfold nameAt childAt at h
  rw [List.getElem?_eq_getElem hlt] at h
  cases hc : n.children[position] with
  | name text =>
    simp only [hc, bind, Except.bind] at h
    split at h
    · cases h
      rfl
    · cases h
  | absent | node | literal =>
    rw [hc] at h
    cases h
    rfl

theorem exists_childAt {n : Node} {position : Nat} (hlt : position < n.children.length) :
    ∃ c, n.children[position]? = some c ∧ n.childAt position = .ok c := by
  have hget := List.getElem?_eq_getElem hlt
  exact ⟨_, hget, by rw [childAt, hget]⟩

/-- Every node of a tree has its children in their places. -/
def IsLaidOut (root : Node) : Prop := ∀ o ∈ root.places, o.node.kind.takes o.node.children = true

/-- The three names that can be at fault: that of a class or module, that of a method, and that of
the constant which a method is declared on. -/
theorem declared_error_cases {n : Node} {fault : Fault} (h : n.declared = .error fault) :
    n.kind.isType = true ∧ n.typeName = .error fault ∨
      (n.kind = .methodDef ∨ n.kind = .singletonDef) ∧ n.methodName = .error fault ∨
      n.kind = .singletonDef ∧ n.receiverName = .error fault := by
  unfold declared at h
  cases hkind : n.kind with
  | classDef | moduleDef =>
    simp only [hkind, Kind.role] at h
    cases hname : n.typeName <;> rw [hname] at h <;> cases h
    exact .inl ⟨rfl, rfl⟩
  | methodDef =>
    simp only [hkind, Kind.role] at h
    cases hname : n.methodName <;> rw [hname] at h <;> cases h
    exact .inr (.inl ⟨.inl rfl, rfl⟩)
  | singletonDef =>
    simp only [hkind, Kind.role] at h
    cases hname : n.methodName with
    | error e =>
      rw [hname] at h
      cases h
      exact .inr (.inl ⟨.inr rfl, rfl⟩)
    | ok name =>
      cases hreceiver : n.receiverName <;> rw [hname, hreceiver] at h <;> cases h
      exact .inr (.inr ⟨rfl, rfl⟩)
  | _ =>
    simp only [hkind, Kind.role] at h
    cases h

namespace IsLaidOut

variable {root : Node} {o : Occurrence} {fault : Fault}

theorem lt_length (h : root.IsLaidOut) (ho : o ∈ root.places) {position : Nat}
    (hlt : position < o.node.kind.leastChildren) : position < o.node.children.length :=
  Nat.lt_of_lt_of_le hlt (Kind.leastChildren_le (h o ho))

theorem segmentsWithin {links : Nat} (h : root.IsLaidOut) (ho : o ∈ root.places)
    (hfault : o.node.segmentsWithin links = .error fault) : fault.isOfLayout = false := by
  induction links generalizing o with
  | zero =>
    cases hfault
    rfl
  | succ links ih =>
    rw [Node.segmentsWithin] at hfault
    split_ifs at hfault with hkind
    · cases hname : o.node.nameAt 1 with
      | error e =>
        rw [hname] at hfault
        cases hfault
        exact isOfLayout_of_nameAt (h.lt_length ho (by rw [hkind]; decide)) hname
      | ok name =>
        cases hscope : o.node.constantScope? with
        | none =>
          rw [hname, hscope] at hfault
          cases hfault
        | some scope =>
          rw [hname, hscope] at hfault
          cases hrec : scope.segmentsWithin links with
          | ok segments =>
            simp only [bind, Except.bind, hrec] at hfault
            cases hfault
          | error e =>
            simp only [bind, Except.bind, hrec] at hfault
            cases hfault
            exact ih (places_step ho (constantScope?_eq_some hscope)) hrec
    · cases hfault
      rfl

theorem typeName (h : root.IsLaidOut) (ho : o ∈ root.places) (hkind : o.node.kind.isType = true)
    (hfault : o.node.typeName = .error fault) : fault.isOfLayout = false := by
  have hlt : 0 < o.node.kind.leastChildren := by
    cases hk : o.node.kind <;> simp [hk, Kind.isType] at hkind <;> decide
  obtain ⟨c, hget, hc⟩ := exists_childAt (h.lt_length ho hlt)
  rw [Node.typeName, typeSegments, hc] at hfault
  cases c with
  | absent | name | literal =>
    cases hfault
    rfl
  | node name =>
    cases hseg : name.constantSegments with
    | ok segments =>
      simp only [bind, Except.bind, hseg] at hfault
      cases hfault
    | error e =>
      simp only [bind, Except.bind, hseg] at hfault
      cases hfault
      exact h.segmentsWithin (places_step ho hget) hseg

theorem receiverName (h : root.IsLaidOut) (ho : o ∈ root.places)
    (hkind : o.node.kind = .singletonDef) (hfault : o.node.receiverName = .error fault) :
    fault.isOfLayout = false := by
  obtain ⟨c, hget, hc⟩ := exists_childAt (h.lt_length ho (by rw [hkind]; decide : 0 < _))
  rw [Node.receiverName, hc] at hfault
  cases c with
  | absent | name | literal =>
    cases hfault
    rfl
  | node receiver =>
    simp only [bind, Except.bind] at hfault
    split_ifs at hfault with hself hconstant
    · cases hfault
    · cases hseg : receiver.constantSegments with
      | ok segments =>
        rw [hseg] at hfault
        cases hfault
      | error e =>
        rw [hseg] at hfault
        cases hfault
        exact h.segmentsWithin (places_step ho hget) hseg
    · cases hfault
      rfl

theorem methodName (h : root.IsLaidOut) (ho : o ∈ root.places)
    (hkind : o.node.kind = .methodDef ∨ o.node.kind = .singletonDef)
    (hfault : o.node.methodName = .error fault) : fault.isOfLayout = false := by
  rw [Node.methodName] at hfault
  split_ifs at hfault with hsingleton
  · exact isOfLayout_of_nameAt (h.lt_length ho (by rw [hsingleton]; decide)) hfault
  · have hmethod := hkind.resolve_right hsingleton
    exact isOfLayout_of_nameAt (h.lt_length ho (by rw [hmethod]; decide)) hfault

theorem declared (h : root.IsLaidOut) (ho : o ∈ root.places)
    (hfault : o.declared = .error fault) : fault.isOfLayout = false := by
  rw [Occurrence.declared] at hfault
  split_ifs at hfault with hdeep
  · cases hfault
    rfl
  · obtain ⟨hkind, hname⟩ | ⟨hkind, hname⟩ | ⟨hkind, hreceiver⟩ := declared_error_cases hfault
    · exact h.typeName ho hkind hname
    · exact h.methodName ho hkind hname
    · exact h.receiverName ho hkind hreceiver

end IsLaidOut

end Node

theorem Kind.mem_all (kind : Kind) : kind ∈ Kind.all := by
  cases kind <;> decide

/-- The shapes that children have. -/
def Child.shapes : List String :=
  Kind.all.map Kind.label ++ ["NoneType", "str", "int", "bool", "float", "list"]

theorem Child.shape_mem_shapes (c : Child) : c.shape ∈ shapes := by
  cases c with
  | node n => exact List.mem_append_left _ (List.mem_map_of_mem n.kind.mem_all)
  | absent | name => exact List.mem_append_right _ (by simp [shape, typeName])
  | literal value =>
    refine List.mem_append_right _ ?_
    cases value <;> simp [shape, typeName, Literal.typeName]

/-- Words without digits that are found in a text which ends in a number stand before the number. -/
theorem infix_of_infix_append_number {words text : List Char} {number : Nat} (hne : words ≠ [])
    (hdigit : ∀ c ∈ words, c.isDigit = false)
    (h : words <:+: text ++ (toString number).toList) : words <:+: text := by
  have hnumber : ∀ c ∈ (toString number).toList, c.isDigit = true := by
    intro c hc
    rw [Nat.toString_eq_repr, Nat.toList_repr] at hc
    exact Nat.isDigit_of_mem_toDigits (by decide) (by decide) hc
  have hnone (part : List Char) (hpart : part <:+: (toString number).toList)
      (hsub : ∀ c ∈ part, c ∈ words) : part = [] := by
    rw [List.eq_nil_iff_forall_not_mem]
    intro c hc
    have hc' := hnumber c (hpart.subset hc)
    rw [hdigit c (hsub c hc)] at hc'
    cases hc'
  rcases List.infix_append_iff.mp h with hbefore | hinside | ⟨first, last, rfl, hfirst, hlast⟩
  · exact hbefore
  · exact absurd (hnone words hinside fun c hc => hc) hne
  · have hnil := hnone last hlast.isInfix fun c hc => List.mem_append_right _ hc
    rw [hnil, List.append_nil]
    exact hfirst.isInfix

namespace Fault

/-- The words by which a message tells of a child that is not there at all, or of a root that is no
node. -/
def layoutWords : List String := ["has no child at position", "root is not a syntax node"]

/-- The texts of all other messages, up to the position that some of them end in. -/
def otherTexts : List (List Char) :=
  Kind.all.map (fun kind => kind.label.toList ++ " node has no name at position ".toList) ++
    Kind.all.map (fun kind => kind.label.toList ++ " node has no name constant".toList) ++
    Child.shapes.map (fun shape => "unrecognized method receiver: ".toList ++ shape.toList) ++
    ["expected a constant", "maximum recursion depth exceeded",
      "syntax tree nested too deeply to traverse",
      "syntax tree nested deeper than " ++ toString maxDepth ++ " levels"].map String.toList

theorem message_cases {fault : Fault} (h : fault.isOfLayout = false) :
    ∃ text ∈ otherTexts, ∃ rest, fault.message.toList = text ++ rest ∧
      (rest = [] ∨ ∃ position : Nat, rest = (toString position).toList) := by
  simp only [otherTexts, List.mem_append, List.mem_map]
  cases fault with
  | missingChild | rootNotNode => cases h
  | missingName n position =>
    refine ⟨_, .inl (.inl (.inl ⟨n.kind, n.kind.mem_all, rfl⟩)), _, ?_, .inr ⟨position, rfl⟩⟩
    exact String.toList_append.trans (congrArg (· ++ _) String.toList_append)
  | missingConstant n =>
    refine ⟨_, .inl (.inl (.inr ⟨n.kind, n.kind.mem_all, rfl⟩)), [], ?_, .inl rfl⟩
    exact String.toList_append.trans (List.append_nil _).symm
  | unsupportedReceiver n receiver =>
    refine ⟨_, .inl (.inr ⟨receiver.shape, receiver.shape_mem_shapes, rfl⟩), [], ?_, .inl rfl⟩
    exact String.toList_append.trans (List.append_nil _).symm
  | notConstant found =>
    exact ⟨_, .inr ⟨_, .head _, rfl⟩, [], (List.append_nil _).symm, .inl rfl⟩
  | chainTooLong =>
    exact ⟨_, .inr ⟨_, .tail _ (.head _), rfl⟩, [], (List.append_nil _).symm, .inl rfl⟩
  | untraversable n =>
    exact ⟨_, .inr ⟨_, .tail _ (.tail _ (.head _)), rfl⟩, [], (List.append_nil _).symm, .inl rfl⟩
  | nestedTooDeep n =>
    exact ⟨_, .inr ⟨_, .tail _ (.tail _ (.tail _ (.head _))), rfl⟩, [], (List.append_nil _).symm,
      .inl rfl⟩

theorem not_infix_otherTexts : ∀ words ∈ layoutWords, ∀ text ∈ otherTexts,
    ¬ words.toList <:+: text := by
  decide +kernel

theorem layoutWords_letters : ∀ words ∈ layoutWords, words.toList ≠ [] ∧
    ∀ c ∈ words.toList, c.isDigit = false := by
  have hall : layoutWords.all fun words =>
      words.toList != [] && words.toList.all (!·.isDigit) := by decide +kernel
  simpa using hall

/-- Faults of the layout are told from all others by the words of their messages. -/
theorem not_infix_message {fault : Fault} (h : fault.isOfLayout = false) {words : String}
    (hwords : words ∈ layoutWords) : ¬ words.toList <:+: fault.message.toList := by
  obtain ⟨hne, hdigit⟩ := layoutWords_letters words hwords
  obtain ⟨text, htext, rest, hmessage, rfl | ⟨position, rfl⟩⟩ := message_cases h
  · rw [hmessage, List.append_nil]
    exact not_infix_otherTexts words hwords text htext
  · rw [hmessage]
    intro hinfix
    exact not_infix_otherTexts words hwords text htext
      (infix_of_infix_append_number hne hdigit hinfix)

end Fault

theorem Walk.mem_diagnostics_andThen {u v : Walk} {d : Diagnostic}
    (h : d ∈ (u.andThen v).diagnostics) : d ∈ u.diagnostics ∨ d ∈ v.diagnostics := by
  cases u with
  | abandoned ds => exact .inl h
  | finished fs ds => cases v <;> exact List.mem_append.mp h

namespace Node

variable {path : String} {d : Diagnostic}

/-- What is recorded at a node is its own fault, or comes from the inside of a node that is
entered. -/
theorem mem_diagnostics_frame {scope : Scope} {n : Node} (hresolved : scope.Resolved)
    {inside : Walk}
    (h : d ∈ (Walk.frame (Fault.seen path (n.heading path scope)) inside).diagnostics) :
    (∃ fault, n.declared = .error fault ∧ d = Diagnostic.ofFault path fault) ∨
      n.Entered ∧ d ∈ inside.diagnostics := by
  obtain ⟨groups, -, hsegments⟩ := hresolved.segments
  have hdeclared := heading_name hsegments path n
  cases hheading : n.heading path scope with
  | error fault =>
    rw [hheading, Except.map] at hdeclared
    rw [hheading, Fault.seen, Except.mapError] at h
    cases hreach : fault.reach with
    | declaration =>
      have hentered : n.Entered := by
        intro e he
        rw [← hdeclared] at he
        cases he
        exact hreach
      rw [hreach] at h
      cases inside <;> rcases List.mem_cons.mp h with hown | hinside
      · exact .inl ⟨fault, hdeclared.symm, hown⟩
      · exact .inr ⟨hentered, hinside⟩
      · exact .inl ⟨fault, hdeclared.symm, hown⟩
      · exact .inr ⟨hentered, hinside⟩
    | subtree =>
      rw [hreach] at h
      exact .inl ⟨fault, hdeclared.symm, List.mem_singleton.mp h⟩
    | file =>
      rw [hreach] at h
      cases h
  | ok made =>
    have hentered : n.Entered := by
      intro e he
      rw [← hdeclared, hheading] at he
      cases he
    rw [hheading] at h
    refine .inr ⟨hentered, ?_⟩
    cases made with
    | none => exact h
    | some heading =>
      cases heading with
      | classLike name location => cases inside <;> exact h
      | method m => cases inside <;> exact h

theorem mem_diagnostics_walkAll {scope : Scope} {children : List Child}
    (h : d ∈ (walkAll path scope children).diagnostics) :
    ∃ (i : Nat) (c : Node), children[i]? = some (.node c) ∧
      d ∈ (c.walk path scope).diagnostics := by
  induction children using Child.listInduction with
  | nil => cases h
  | node c rest ih =>
    rw [walkAll] at h
    rcases Walk.mem_diagnostics_andThen h with hfirst | hrest
    · exact ⟨0, c, rfl, hfirst⟩
    · obtain ⟨i, other, hi, hd⟩ := ih hrest
      exact ⟨i + 1, other, hi, hd⟩
  | skip c rest hc ih =>
    rw [walkAll_skip _ _ hc] at h
    obtain ⟨i, other, hi, hd⟩ := ih h
    exact ⟨i + 1, other, hi, hd⟩

/-- Every diagnostic of a walk, finished or not, is the fault of a place. -/
theorem exists_fault_of_mem_walk {n : Node} {way : List Nat} {scope : Scope}
    (hresolved : scope.Resolved) (h : d ∈ (n.walk path scope).diagnostics) :
    ∃ o ∈ n.occurrences way scope, ∃ fault, o.declared = .error fault ∧
      d = Diagnostic.ofFault path fault := by
  induction n using Node.childInduction generalizing way scope with
  | step n ih =>
    have hself : ⟨way, scope, n⟩ ∈ n.occurrences way scope := mem_occurrences.mpr (.inl rfl)
    rw [walk_eq_frame] at h
    split at h
    · rename_i hdeep
      refine ⟨_, hself, _, ?_, List.mem_singleton.mp h⟩
      rw [Occurrence.declared, if_pos hdeep]
    · rename_i hdepth
      rcases mem_diagnostics_frame hresolved h with ⟨fault, hfault, hd⟩ | ⟨hentered, hinside⟩
      · refine ⟨_, hself, fault, ?_, hd⟩
        rw [Occurrence.declared, if_neg hdepth, hfault]
      · obtain ⟨i, c, hc, hd⟩ := mem_diagnostics_walkAll hinside
        obtain ⟨o, ho, hfault⟩ :=
          @ih c (List.mem_of_getElem? hc) (i :: way) _ (hentered.resolved hresolved) hd
        exact ⟨o, mem_occurrences.mpr (.inr ⟨i, c, hc, ho⟩), hfault⟩

end Node

/-- Every diagnostic of a file is the fault of a place, or says that the file was given up. -/
theorem Extraction.exists_fault_of_mem {path : String} {root : Node} {d : Diagnostic}
    (h : d ∈ (extract path (.node root)).diagnostics) :
    (∃ o ∈ root.places, ∃ fault, o.declared = .error fault ∧ d = Diagnostic.ofFault path fault) ∨
      d = Diagnostic.ofFault path (.untraversable root) := by
  have hwalk : d ∈ (root.walk path []).diagnostics ∨
      d = Diagnostic.ofFault path (.untraversable root) := by
    rw [extract] at h
    cases hw : root.walk path [] with
    | finished fs ds =>
      rw [hw] at h
      exact .inl h
    | abandoned ds =>
      rw [hw] at h
      exact (List.mem_append.mp h).imp_right List.mem_singleton.mp
  refine hwalk.imp_left fun hd => ?_
  exact Node.exists_fault_of_mem_walk (by simp [Scope.Resolved]) hd

/-- Every parse tree but a comment has a program tree. Each node of it has its children in the
places that its kind gives them, and stands at the line of some parse tree. So none of the
diagnostics of the file tells of a child that is not there at all, or of a root that is no node. -/
theorem lowered_tree_is_laid_out (path source : String) (t : ParseTree) (h : t.type ≠ "comment") :
    ∃ root : Node, t.toNode? source = some root ∧
      (∀ o ∈ root.places, o.node.kind.takes o.node.children = true ∧
        ∃ (place : Identity) (origin : ParseTree), t.at? place = some origin ∧
          o.node.line = origin.row + 1) ∧
      ∀ d ∈ (extract path (.node root)).diagnostics,
        ¬ "has no child at position".toList <:+: d.message.toList ∧
          ¬ "root is not a syntax node".toList <:+: d.message.toList := by
  have hlowered : t.toNode? source ≠ none := by
    rw [ParseTree.toNode?, Ne, ParseTree.lower_eq_none_iff, ParseTree.isComment, beq_iff_eq]
    exact h
  obtain ⟨root, hroot⟩ := Option.ne_none_iff_exists'.mp hlowered
  have horigin (o : Occurrence) (ho : o ∈ root.places) :
      ParseTree.Origin (Utf8.encode source) t o.node := ParseTree.Origin.of_place hroot ho
  have hlaid : root.IsLaidOut := fun o ho => (horigin o ho).takes
  refine ⟨root, hroot, fun o ho => ⟨hlaid o ho, (horigin o ho).line⟩, fun d hd => ?_⟩
  have hfault : ∃ fault : Fault, fault.isOfLayout = false ∧ d = Diagnostic.ofFault path fault := by
    rcases Extraction.exists_fault_of_mem hd with ⟨o, ho, fault, hdeclared, hd⟩ | hd
    · exact ⟨fault, hlaid.declared ho hdeclared, hd⟩
    · exact ⟨_, rfl, hd⟩
  obtain ⟨fault, hlayout, rfl⟩ := hfault
  exact ⟨Fault.not_infix_message hlayout (.head _),
    Fault.not_infix_message hlayout (.tail _ (.head _))⟩

/-- A class whose name is a comment and whose statement stands straight under it, and a singleton
method without any field. -/
def namelessTree : ParseTree :=
  { type := "program"
    children := [
      { type := "class", row := 1
        children := [
          { type := "comment", row := 1, field := some "name" },
          { type := "identifier", stop := 7, row := 2 }] },
      { type := "singleton_method", row := 4 }] }

def namelessNode : Node :=
  let switch : Node := ⟨[1, 0], .call, [.absent, .name "private"], 3, 0⟩
  ⟨[], .group, [
    .node ⟨[0], .classDef, [.absent, .absent, .node ⟨[2, 0], .group, [.node switch], 3, 0⟩], 2, 0⟩,
    .node ⟨[1], .singletonDef, [.absent, .absent, .absent, .absent], 5, 0⟩], 1, 0⟩

theorem lowered_tree_is_laid_out_namelessTree :
    namelessTree.type ≠ "comment" ∧ namelessTree.toNode? "private" = some namelessNode ∧
    (∀ o ∈ namelessNode.places, o.node.kind.takes o.node.children = true ∧
      ∃ (place : Identity) (origin : ParseTree), namelessTree.at? place = some origin ∧
        o.node.line = origin.row + 1) ∧
    (extract "a.rb" (.node namelessNode)).diagnostics.map (·.message) =
      ["class node has no name constant", "defs node has no name at position 1"] ∧
    ∀ d ∈ (extract "a.rb" (.node namelessNode)).diagnostics,
      ¬ "has no child at position".toList <:+: d.message.toList := by
  have hcomment : namelessTree.type ≠ "comment" := by decide
  have hnode : namelessTree.toNode? "private" = some namelessNode := rfl
  obtain ⟨root, hroot, hplaces, hdiagnostics⟩ :=
    lowered_tree_is_laid_out "a.rb" "private" namelessTree hcomment
  cases hnode.symm.trans hroot
  exact ⟨hcomment, hnode, hplaces, by decide +kernel, fun d hd => (hdiagnostics d hd).1⟩

end RubyOutline
