import RubyOutline.ParseTree.Lowering
import RubyOutline.Proofs.Occurrence

namespace RubyOutline

@[simp] theorem Child.node_eq_ofNode? {n : Node} {found : Option Node} :
    .node n = Child.ofNode? found ↔ found = some n := by
  cases found <;> simp [Child.ofNode?, eq_comm]

@[simp] theorem Child.node_ne_ofName? {n : Node} {found : Option String} :
    .node n ≠ Child.ofName? found := by
  cases found <;> simp [Child.ofName?]

namespace ParseTree

theorem sizeOf_lt_of_mem {t c : ParseTree} (h : c ∈ t.children) : sizeOf c < sizeOf t := by
  obtain ⟨type, start, stop, row, column, named, missing, field, children⟩ := t
  have hlist : sizeOf c < sizeOf children := List.sizeOf_lt_of_mem h
  simp only [ParseTree.mk.sizeOf_spec]
  omega

/-- What holds of a parse tree when it holds of all its children holds of every parse tree. -/
theorem childInduction {P : ParseTree → Prop}
    (step : ∀ t : ParseTree, (∀ c ∈ t.children, P c) → P t) (t : ParseTree) : P t :=
  step t fun c _ => childInduction step c
termination_by sizeOf t
decreasing_by exact sizeOf_lt_of_mem ‹_›

/-- The parse tree at a path, innermost step first. -/
def at? (root : ParseTree) : Identity → Option ParseTree
  | [] => some root
  | i :: path => (root.at? path).bind fun t => t.children[i]?

/-- The outermost step of a way comes last. -/
theorem at?_append_singleton (t : ParseTree) (way : List Nat) (i : Nat) :
    t.at? (way ++ [i]) = t.children[i]?.bind (·.at? way) := by
  induction way with
  | nil => simp [at?]
  | cons j way ih =>
    rw [List.cons_append, at?, ih, Option.bind_assoc]
    rfl

/-- The first child that fills a field. -/
def field? (name : String) (t : ParseTree) : Option ParseTree := t.children.find? (·.fills name)

/-- The first child that fills a field, with its place among the children. -/
def fieldAt? (name : String) (t : ParseTree) : Option (ParseTree × Nat) :=
  t.children.zipIdx.find? (·.1.fills name)

theorem map_fst_fieldAt? (name : String) (t : ParseTree) :
    (t.fieldAt? name).map Prod.fst = t.field? name := by
  rw [field?, ← List.zipIdx_map_fst 0 t.children, List.find?_map]
  rfl

theorem getElem?_of_fieldAt? {name : String} {t child : ParseTree} {i : Nat}
    (h : t.fieldAt? name = some (child, i)) : t.children[i]? = some child :=
  List.mem_zipIdx_iff_getElem?.mp (List.mem_of_find?_eq_some h)

theorem lowerField_eq (source : List UInt8) (name : String) (statement : Bool)
    (identity : Identity) (index : Nat) (trees : List ParseTree) :
    lowerField source name statement identity index trees =
      ((trees.zipIdx index).find? (·.1.fills name)).bind fun (t, i) =>
        lower source statement (i :: identity) t := by
  induction trees generalizing index with
  | nil => rfl
  | cons t rest ih =>
    rw [lowerField, List.zipIdx_cons, List.find?_cons]
    by_cases hfills : t.fills name = true
    · simp [hfills]
    · simp [hfills, ih]

theorem lowerWhere_eq (source : List UInt8) (keep : ParseTree → Bool) (statement : Bool)
    (identity : Identity) (index : Nat) (trees : List ParseTree) :
    lowerWhere source keep statement identity index trees =
      (trees.zipIdx index).filterMap fun (t, i) =>
        if keep t then (lower source statement (i :: identity) t).map .node else none := by
  induction trees generalizing index with
  | nil => rfl
  | cons t rest ih =>
    rw [lowerWhere, List.zipIdx_cons, List.filterMap_cons, ih]
    by_cases hkeep : keep t = true
    · cases hlower : lower source statement (index :: identity) t <;> simp [hkeep, hlower]
    · simp [hkeep]

theorem lowerArguments_eq (source : List UInt8) (identity : Identity) (index : Nat)
    (trees : List ParseTree) :
    lowerArguments source identity index trees =
      ((trees.zipIdx index).find? (·.1.fills "arguments")).elim [] fun (t, i) =>
        lowerWhere source (·.named) false (i :: identity) 0 t.children := by
  induction trees generalizing index with
  | nil => rfl
  | cons t rest ih =>
    obtain ⟨type, start, stop, row, column, named, missing, field, children⟩ := t
    rw [lowerArguments, List.zipIdx_cons, List.find?_cons]
    split
    · simp [*]
    · simp [*]

theorem lowerWhere_append (source : List UInt8) (keep : ParseTree → Bool) (statement : Bool)
    (identity : Identity) (index : Nat) (before after : List ParseTree) :
    lowerWhere source keep statement identity index (before ++ after) =
      lowerWhere source keep statement identity index before ++
        lowerWhere source keep statement identity (index + before.length) after := by
  simp only [lowerWhere_eq, List.zipIdx_append, List.filterMap_append]

theorem mem_lowerWhere {source : List UInt8} {keep : ParseTree → Bool} {statement : Bool}
    {identity : Identity} {index : Nat} {trees : List ParseTree} {c : Child} :
    c ∈ lowerWhere source keep statement identity index trees ↔
      ∃ (i : Nat) (t : ParseTree) (n : Node), trees[i]? = some t ∧ keep t = true ∧
        lower source statement ((index + i) :: identity) t = some n ∧ c = .node n := by
  rw [lowerWhere_eq, List.mem_filterMap]
  constructor
  · rintro ⟨⟨t, i⟩, hmem, hc⟩
    obtain ⟨hle, hget⟩ := List.mk_mem_zipIdx_iff_le_and_getElem?_sub.mp hmem
    by_cases hkeep : keep t = true
    · simp only [hkeep, if_true] at hc
      obtain ⟨n, hn, rfl⟩ := Option.map_eq_some_iff.mp hc
      refine ⟨i - index, t, n, hget, hkeep, ?_, rfl⟩
      rwa [Nat.add_sub_cancel' hle]
    · simp [hkeep] at hc
  · rintro ⟨i, t, n, hget, hkeep, hn, rfl⟩
    refine ⟨(t, index + i), ?_, by simp [hkeep, hn]⟩
    exact List.mk_mem_zipIdx_iff_le_and_getElem?_sub.mpr ⟨by omega, by simpa using hget⟩

/-- The node of what fills a field. -/
def lowerIn (source : List UInt8) (name : String) (statement : Bool) (identity : Identity)
    (t : ParseTree) : Option Node :=
  (t.fieldAt? name).bind fun (child, i) => lower source statement (i :: identity) child

/-- The nodes of the arguments of a call. -/
def argumentsIn (source : List UInt8) (identity : Identity) (t : ParseTree) : List Child :=
  (t.fieldAt? "arguments").elim [] fun (arguments, i) =>
    lowerWhere source (·.named) false (i :: identity) 0 arguments.children

/-- The group that holds the statements straight under a declaration; it stands where the first of
them does. -/
def looseBody (source : List UInt8) (identity : Identity) (t first : ParseTree) : Node :=
  ⟨bodyIdentity identity t.children, .group,
    lowerWhere source isStatement true identity 0 t.children, first.line, first.column⟩

/-- The body of a declaration: what fills its field, or the statements straight under it. -/
def body? (source : List UInt8) (identity : Identity) (t : ParseTree) : Option Node :=
  match t.fieldAt? "body" with
  | some _ => t.lowerIn source "body" true identity
  | none => (t.children.find? isStatement).map (t.looseBody source identity)

/-- The kind of node that a parse tree becomes, and the children in their places. -/
def form (source : List UInt8) (statement : Bool) (identity : Identity) (t : ParseTree) :
    Option (Kind × List Child) :=
  let place (name : String) : Child := .ofNode? (t.lowerIn source name false identity)
  let word (name : String) : Child := .ofName? ((t.field? name).map (·.text source))
  let body : Child := .ofNode? (t.body? source identity)
  let inside (statements : Bool) : List Child :=
    lowerWhere source (·.named) statements identity 0 t.children
  match Form.ofType t.type with
  | .comment => none
  | .classDef => some (.classDef, [place "name", place "superclass", body])
  | .moduleDef => some (.moduleDef, [place "name", body])
  | .singletonClass => some (.singletonClass, [place "value", body])
  | .methodDef => some (.methodDef, [word "name", place "parameters", body])
  | .singletonDef => some (.singletonDef, [place "object", word "name", place "parameters", body])
  | .constant => some (.constant, [.absent, .name (t.text source)])
  | .scopedConstant => some (.constant, [place "scope", word "name"])
  | .selfRef => some (.selfRef, [])
  | .call =>
    some (.call, place "receiver" :: .name (((t.field? "method").map (·.text source)).getD "call") ::
      (t.argumentsIn source identity ++
        (t.lowerIn source "block" false identity).toList.map .node))
  | .identifier =>
    if statement then some (.call, [.absent, .name (t.text source)])
    else some (.other, inside false)
  | .plain => some (Form.plainKind t.type, inside (Form.holdsStatements t.type))

theorem lowerField_eq_lowerIn (source : List UInt8) (name : String) (statement : Bool)
    (identity : Identity) (t : ParseTree) :
    lowerField source name statement identity 0 t.children =
      t.lowerIn source name statement identity :=
  lowerField_eq source name statement identity 0 t.children

theorem body?_eq (source : List UInt8) (identity : Identity) (t : ParseTree) :
    (if t.children.any (·.fills "body") then lowerField source "body" true identity 0 t.children
      else (t.children.find? isStatement).map (t.looseBody source identity)) =
      t.body? source identity := by
  have hany : t.children.any (·.fills "body") = (t.fieldAt? "body").isSome := by
    rw [← List.isSome_find?, ← field?, ← map_fst_fieldAt?, Option.isSome_map]
  rw [lowerField_eq_lowerIn, hany, body?]
  cases t.fieldAt? "body" <;> rfl

/-- A lowered parse tree takes its form from the type of the construct alone. -/
theorem lower_eq (source : List UInt8) (statement : Bool) (identity : Identity) (t : ParseTree) :
    lower source statement identity t =
      (t.form source statement identity).map fun (kind, places) =>
        ⟨identity, kind, places, t.line, t.column⟩ := by
  have hbody := body?_eq source identity t
  have hfield := fun name statement => lowerField_eq_lowerIn source name statement identity t
  have harguments := lowerArguments_eq source identity 0 t.children
  obtain ⟨type, start, stop, row, column, named, missing, field, children⟩ := t
  simp only at hbody hfield harguments
  rw [lower, form, ← hbody, argumentsIn, fieldAt?, ← harguments]
  simp only [← hfield]
  cases Form.ofType type with
  | identifier => cases statement <;> rfl
  | _ => rfl

theorem lower_identity {source : List UInt8} {statement : Bool} {identity : Identity}
    {t : ParseTree} {n : Node} (h : lower source statement identity t = some n) :
    n.identity = identity := by
  rw [lower_eq] at h
  obtain ⟨-, -, rfl⟩ := Option.map_eq_some_iff.mp h
  rfl

/-- Where a node of a program tree comes from: the parse tree at the path that is its identity, or
the statements straight under a declaration. -/
def Origin (source : List UInt8) (root : ParseTree) (n : Node) : Prop :=
  (∃ (t : ParseTree) (statement : Bool), root.at? n.identity = some t ∧
    lower source statement n.identity t = some n) ∨
  ∃ (path : Identity) (t first : ParseTree), root.at? path = some t ∧ first ∈ t.children ∧
    n = t.looseBody source path first

namespace Origin

variable {source : List UInt8} {root t : ParseTree} {path : Identity}

theorem of_lower {statement : Bool} {n : Node} (ht : root.at? path = some t)
    (h : lower source statement path t = some n) : Origin source root n := by
  refine .inl ⟨t, statement, ?_⟩
  rw [lower_identity h]
  exact ⟨ht, h⟩

theorem of_child {statement : Bool} {child : ParseTree} {i : Nat} {n : Node}
    (ht : root.at? path = some t) (hchild : t.children[i]? = some child)
    (h : lower source statement (i :: path) child = some n) : Origin source root n :=
  of_lower (by rw [at?, ht, Option.bind_some, hchild]) h

theorem of_lowerIn {name : String} {statement : Bool} {n : Node} (ht : root.at? path = some t)
    (h : t.lowerIn source name statement path = some n) : Origin source root n := by
  obtain ⟨⟨child, i⟩, hfield, hn⟩ := Option.bind_eq_some_iff.mp h
  exact of_child ht (getElem?_of_fieldAt? hfield) hn

theorem of_lowerWhere {keep : ParseTree → Bool} {statement : Bool} {n : Node}
    (ht : root.at? path = some t)
    (h : .node n ∈ lowerWhere source keep statement path 0 t.children) : Origin source root n := by
  obtain ⟨i, child, m, hchild, -, hm, heq⟩ := mem_lowerWhere.mp h
  cases heq
  rw [Nat.zero_add] at hm
  exact of_child ht hchild hm

theorem of_argumentsIn {n : Node} (ht : root.at? path = some t)
    (h : .node n ∈ t.argumentsIn source path) : Origin source root n := by
  rw [argumentsIn] at h
  cases hfield : t.fieldAt? "arguments" with
  | none => simp [hfield] at h
  | some found =>
    obtain ⟨arguments, i⟩ := found
    rw [hfield] at h
    have harguments : root.at? (i :: path) = some arguments := by
      rw [at?, ht, Option.bind_some, getElem?_of_fieldAt? hfield]
    exact of_lowerWhere harguments h

theorem of_body? {n : Node} (ht : root.at? path = some t) (h : t.body? source path = some n) :
    Origin source root n := by
  rw [body?] at h
  split at h
  · exact of_lowerIn ht h
  · obtain ⟨first, hfirst, rfl⟩ := Option.map_eq_some_iff.mp h
    exact .inr ⟨path, t, first, ht, List.mem_of_find?_eq_some hfirst, rfl⟩

theorem of_form {statement : Bool} {kind : Kind} {places : List Child} {n : Node}
    (ht : root.at? path = some t) (hform : t.form source statement path = some (kind, places))
    (hn : .node n ∈ places) : Origin source root n := by
  rw [form] at hform
  cases htype : Form.ofType t.type with
  | comment => simp [htype] at hform
  | constant | selfRef =>
    rw [htype] at hform
    cases hform
    simp at hn
  | classDef =>
    rw [htype] at hform
    cases hform
    simp only [List.mem_cons, Child.node_eq_ofNode?, List.not_mem_nil, or_false] at hn
    rcases hn with hname | hsuperclass | hbody
    · exact of_lowerIn ht hname
    · exact of_lowerIn ht hsuperclass
    · exact of_body? ht hbody
  | moduleDef | singletonClass =>
    rw [htype] at hform
    cases hform
    simp only [List.mem_cons, Child.node_eq_ofNode?, List.not_mem_nil, or_false] at hn
    rcases hn with hfield | hbody
    · exact of_lowerIn ht hfield
    · exact of_body? ht hbody
  | methodDef =>
    rw [htype] at hform
    cases hform
    simp only [List.mem_cons, Child.node_eq_ofNode?, Child.node_ne_ofName?, List.not_mem_nil,
      or_false, false_or] at hn
    rcases hn with hparameters | hbody
    · exact of_lowerIn ht hparameters
    · exact of_body? ht hbody
  | singletonDef =>
    rw [htype] at hform
    cases hform
    simp only [List.mem_cons, Child.node_eq_ofNode?, Child.node_ne_ofName?, List.not_mem_nil,
      or_false, false_or] at hn
    rcases hn with hobject | hparameters | hbody
    · exact of_lowerIn ht hobject
    · exact of_lowerIn ht hparameters
    · exact of_body? ht hbody
  | scopedConstant =>
    rw [htype] at hform
    cases hform
    simp only [List.mem_cons, Child.node_eq_ofNode?, Child.node_ne_ofName?, List.not_mem_nil,
      or_false] at hn
    exact of_lowerIn ht hn
  | call =>
    rw [htype] at hform
    cases hform
    simp only [List.mem_cons, List.mem_append, List.mem_map, Option.mem_toList, Child.node.injEq,
      Child.node_eq_ofNode?, reduceCtorEq, false_or, exists_eq_right] at hn
    rcases hn with hreceiver | harguments | hblock
    · exact of_lowerIn ht hreceiver
    · exact of_argumentsIn ht harguments
    · exact of_lowerIn ht hblock
  | identifier =>
    rw [htype] at hform
    cases statement with
    | true =>
      cases hform
      simp at hn
    | false =>
      cases hform
      exact of_lowerWhere ht hn
  | plain =>
    rw [htype] at hform
    cases hform
    exact of_lowerWhere ht hn

theorem child {n c : Node} (h : Origin source root n) (hc : .node c ∈ n.children) :
    Origin source root c := by
  rcases h with ⟨t, statement, ht, hn⟩ | ⟨path, t, first, ht, -, rfl⟩
  · rw [lower_eq] at hn
    obtain ⟨⟨kind, places⟩, hform, heq⟩ := Option.map_eq_some_iff.mp hn
    rw [← heq] at hc
    exact of_form ht hform hc
  · exact of_lowerWhere ht hc

theorem of_place {statement : Bool} {tree : Node} (h : lower source statement [] root = some tree)
    {o : Occurrence} (ho : o ∈ tree.places) : Origin source root o.node := by
  refine Node.occurrences_induction (P := fun o => Origin source root o.node) (of_lower rfl h)
    (fun parent _ hparent i c hc => ?_) o ho
  exact hparent.child (List.mem_of_getElem? hc)

/-- A node whose identity is the path of a parse tree is the lowering of that parse tree. -/
theorem lower {n : Node} (h : Origin source root n) (ht : root.at? n.identity = some t) :
    ∃ statement, ParseTree.lower source statement n.identity t = some n := by
  rcases h with ⟨t', statement, ht', hn⟩ | ⟨path, t', first, ht', -, rfl⟩
  · obtain rfl : t = t' := by simpa [ht] using ht'
    exact ⟨statement, hn⟩
  · -- the group stands after all children, where there is no parse tree
    have hpath : (t'.looseBody source path first).identity = t'.children.length :: path := rfl
    rw [hpath, at?, ht', Option.bind_some, List.getElem?_eq_none (Nat.le_refl _)] at ht
    cases ht

end Origin

end ParseTree

end RubyOutline
