import RubyOutline.Proofs.Lowering
import RubyOutline.Proofs.VisibilityPass

namespace RubyOutline

theorem Node.shape_of_bareVisibility? {n : Node} {v : Visibility} (h : n.bareVisibility? = some v) :
    n.kind = .call ∧ ∃ word, n.children = [.absent, .name word] := by
  unfold Node.bareVisibility? at h
  split at h
  · rename_i word hkind hchildren
    exact ⟨hkind, word, hchildren⟩
  · cases h

/-- The type of the constructs of a form. -/
def Form.word : Form → String
  | .comment => "comment"
  | .classDef => "class"
  | .moduleDef => "module"
  | .singletonClass => "singleton_class"
  | .methodDef => "method"
  | .singletonDef => "singleton_method"
  | .constant => "constant"
  | .scopedConstant => "scope_resolution"
  | .selfRef => "self"
  | .call => "call"
  | .identifier => "identifier"
  | .plain => ""

private theorem Form.word_ite {type word : String} {form other : Form} (hform : form.word = word)
    (hother : other = .plain ∨ other.word = type) :
    (if type = word then form else other) = .plain ∨
      (if type = word then form else other).word = type := by
  split_ifs with htype
  · exact .inr (hform.trans htype.symm)
  · exact hother

theorem Form.word_ofType (type : String) :
    Form.ofType type = .plain ∨ (Form.ofType type).word = type := by
  unfold Form.ofType
  iterate 11 refine Form.word_ite rfl ?_
  exact .inl rfl

theorem Form.ofType_eq_iff {form : Form} (h : form ≠ .plain) {type : String} :
    Form.ofType type = form ↔ type = form.word := by
  constructor
  · rintro rfl
    exact ((Form.word_ofType type).resolve_left h).symm
  · rintro rfl
    cases form with
    | plain => exact absurd rfl h
    | _ => rfl

theorem Form.plainKind_cases (type : String) :
    Form.plainKind type = .group ∨ Form.plainKind type = .beginBlock ∨
      Form.plainKind type = .other := by
  unfold Form.plainKind
  split_ifs <;> simp

namespace ParseTree

def isComment (t : ParseTree) : Bool := t.type == "comment"

/-- A call that consists of its method name: no receiver, no arguments and no block. Comments do
not count. -/
def isBareCall (t : ParseTree) : Bool :=
  (t.field? "receiver").all isComment &&
    (t.field? "arguments").all (·.children.all fun child => !child.named || child.isComment) &&
      (t.field? "block").all isComment

/-- The visibility that a statement names, if it is a visibility statement: one of three words
alone, which the grammar delivers as an identifier or as a call. -/
def visibility? (source : List UInt8) (t : ParseTree) : Option Visibility :=
  if t.type = "identifier" then Visibility.ofLabel? (t.text source)
  else if t.type = "call" ∧ t.isBareCall = true then
    (t.field? "method").bind fun word => Visibility.ofLabel? (word.text source)
  else none

/-- Statements of a body: those children of a parse tree that count as statements, with the path
of that parse tree. -/
structure Block where
  path : Identity
  children : List ParseTree
  isStatement : ParseTree → Bool

/-- The body of a declaration, where it is a list of statements: it fills a field, or its
statements stand straight under the declaration. -/
def block? (path : Identity) (t : ParseTree) : Option Block :=
  match t.fieldAt? "body" with
  | some (body, i) =>
    if body.type = "body_statement" then some ⟨i :: path, body.children, (·.named)⟩ else none
  | none => some ⟨path, t.children, ParseTree.isStatement⟩

variable {source : List UInt8} {statement : Bool} {identity : Identity} {t : ParseTree}

theorem lower_eq_none_iff : lower source statement identity t = none ↔ t.isComment = true := by
  have hcomment : Form.ofType t.type = .comment ↔ t.type = "comment" :=
    Form.ofType_eq_iff (by simp)
  rw [lower_eq, Option.map_eq_none_iff, isComment, beq_iff_eq, ← hcomment, form]
  cases Form.ofType t.type <;> cases statement <;> simp

theorem lowerWhere_eq_nil_iff {keep : ParseTree → Bool} {index : Nat} {trees : List ParseTree} :
    lowerWhere source keep statement identity index trees = [] ↔
      ∀ child ∈ trees, keep child = true → child.isComment = true := by
  induction trees generalizing index with
  | nil => simp [lowerWhere]
  | cons child rest ih =>
    rw [lowerWhere, List.append_eq_nil_iff, ih, List.forall_mem_cons]
    cases keep child <;> simp [lower_eq_none_iff]

theorem lowerIn_eq_none_iff {name : String} :
    t.lowerIn source name statement identity = none ↔ (t.field? name).all isComment = true := by
  rw [lowerIn, ← map_fst_fieldAt?]
  cases t.fieldAt? name with
  | none => simp
  | some found => simp [lower_eq_none_iff]

theorem argumentsIn_eq_nil_iff : t.argumentsIn source identity = [] ↔
    (t.field? "arguments").all
      (·.children.all fun child => !child.named || child.isComment) = true := by
  rw [argumentsIn, ← map_fst_fieldAt?]
  cases t.fieldAt? "arguments" with
  | none => simp
  | some found =>
    have himp (child : ParseTree) : (!child.named || child.isComment) = true ↔
        (child.named = true → child.isComment = true) := by
      cases child.named <;> simp
    simp only [Option.elim_some, Option.map_some, Option.all_some, List.all_eq_true, himp,
      lowerWhere_eq_nil_iff]

/-- A bare call is one whose node has nothing in it but the selector. -/
theorem isBareCall_iff (source : List UInt8) (identity : Identity) : t.isBareCall = true ↔
    t.lowerIn source "receiver" false identity = none ∧
      t.argumentsIn source identity ++
        (t.lowerIn source "block" false identity).toList.map Child.node = [] := by
  have hblock : (t.lowerIn source "block" false identity).toList.map Child.node = [] ↔
      t.lowerIn source "block" false identity = none := by
    cases t.lowerIn source "block" false identity <;> simp
  rw [List.append_eq_nil_iff, hblock, lowerIn_eq_none_iff, lowerIn_eq_none_iff,
    argumentsIn_eq_nil_iff, isBareCall, Bool.and_eq_true, Bool.and_eq_true, and_assoc]

theorem lower_of_identifier (htype : t.type = "identifier") :
    lower source true identity t =
      some ⟨identity, .call, [.absent, .name (t.text source)], t.line, t.column⟩ := by
  rw [lower_eq, form, htype]
  rfl

theorem lower_of_call (htype : t.type = "call") :
    lower source statement identity t =
      some ⟨identity, .call, .ofNode? (t.lowerIn source "receiver" false identity) ::
        .name (((t.field? "method").map (·.text source)).getD "call") ::
          (t.argumentsIn source identity ++
            (t.lowerIn source "block" false identity).toList.map .node), t.line, t.column⟩ := by
  rw [lower_eq, form, htype]
  rfl

/-- Nothing but calls and identifiers becomes a call. -/
theorem lower_kind_ne_call {n : Node} (hidentifier : t.type ≠ "identifier")
    (hcall : t.type ≠ "call") (h : lower source statement identity t = some n) :
    n.kind ≠ .call := by
  have hidentifier : Form.ofType t.type ≠ .identifier :=
    fun hform => hidentifier ((Form.ofType_eq_iff (by simp)).mp hform)
  have hcall : Form.ofType t.type ≠ .call :=
    fun hform => hcall ((Form.ofType_eq_iff (by simp)).mp hform)
  have hplain : Form.plainKind t.type ≠ .call := by
    rcases Form.plainKind_cases t.type with hkind | hkind | hkind <;> simp [hkind]
  rw [lower_eq] at h
  obtain ⟨⟨kind, places⟩, hform, rfl⟩ := Option.map_eq_some_iff.mp h
  rw [form] at hform
  cases hfound : Form.ofType t.type with
  | comment => simp [hfound] at hform
  | call => exact absurd hfound hcall
  | identifier => exact absurd hfound hidentifier
  | plain =>
    rw [hfound] at hform
    cases hform
    exact hplain
  | _ =>
    rw [hfound] at hform
    cases hform
    simp

/-- Lowering turns the visibility statements of a parse tree, and no other statements, into those
of the program tree. -/
theorem bind_lower_bareVisibility? (source : List UInt8) (identity : Identity) (t : ParseTree) :
    (lower source true identity t).bind Node.bareVisibility? = t.visibility? source := by
  rw [visibility?]
  split_ifs with hidentifier hbare
  · rw [lower_of_identifier hidentifier]
    rfl
  · obtain ⟨hreceiver, hrest⟩ := (isBareCall_iff source identity).mp hbare.2
    rw [lower_of_call hbare.1, hreceiver, hrest]
    cases t.field? "method" <;> rfl
  · by_contra hne
    obtain ⟨v, hv⟩ := Option.ne_none_iff_exists'.mp hne
    obtain ⟨n, hn, hv⟩ := Option.bind_eq_some_iff.mp hv
    obtain ⟨hkind, word, hchildren⟩ := Node.shape_of_bareVisibility? hv
    by_cases hcall : t.type = "call"
    · rw [lower_of_call hcall] at hn
      cases hn
      simp only [List.cons.injEq, Child.name.injEq] at hchildren
      refine hbare ⟨hcall, (isBareCall_iff source identity).mpr ⟨?_, hchildren.2.2⟩⟩
      cases hreceiver : t.lowerIn source "receiver" false identity with
      | none => rfl
      | some receiver => simp [hreceiver, Child.ofNode?] at hchildren
    · exact lower_kind_ne_call hidentifier hcall hn hkind

/-- A pass over the statements of a block finds the same visibilities before and after lowering. -/
theorem foldl_after_lowerWhere (keep : ParseTree → Bool) (index : Nat) (trees : List ParseTree)
    (current : Visibility) :
    (lowerWhere source keep true identity index trees).foldl Visibility.after current =
      (trees.filter keep).foldl (fun state t => (t.visibility? source).getD state) current := by
  induction trees generalizing index current with
  | nil => rfl
  | cons t rest ih =>
    rw [lowerWhere, List.foldl_append, ih]
    by_cases hkeep : keep t = true
    · rw [if_pos hkeep, List.filter_cons_of_pos hkeep, List.foldl_cons,
        ← bind_lower_bareVisibility? source (index :: identity) t]
      cases lower source true (index :: identity) t with
      | none => rfl
      | some n => simp [Visibility.after, Child.switch?_eq, Child.node?]
    · rw [if_neg hkeep, List.filter_cons_of_neg hkeep]
      rfl

theorem lower_of_method {name : String} (htype : t.type = "method")
    (hname : (t.field? "name").map (·.text source) = some name) (hne : name ≠ "") :
    ∃ n : Node, lower source statement identity t = some n ∧ n.kind = .methodDef ∧
      n.nameAt 0 = .ok name ∧ n.line = t.line := by
  rw [lower_eq, form, htype]
  simp only [hname]
  refine ⟨_, rfl, rfl, ?_, rfl⟩
  have hnonempty : ¬ name.isEmpty = true := by simpa using hne
  exact if_neg hnonempty

/-- A class, a module or a singleton class. -/
def isTypeLike (t : ParseTree) : Bool :=
  t.type == "class" || t.type == "module" || t.type == "singleton_class"

theorem lower_of_isTypeLike {n : Node} (htype : t.isTypeLike = true)
    (h : lower source statement identity t = some n) :
    Child.ofNode? (t.body? source identity) ∈ n.children ∧
      (n.kind = .singletonClass ∧ t.type = "singleton_class" ∨
        n.kind.isType = true ∧ t.type ≠ "singleton_class") := by
  simp only [isTypeLike, Bool.or_eq_true, beq_iff_eq] at htype
  rw [lower_eq, form] at h
  rcases htype with (hclass | hmodule) | hsingleton
  · rw [hclass] at h ⊢
    cases h
    exact ⟨by simp, .inr ⟨rfl, by simp⟩⟩
  · rw [hmodule] at h ⊢
    cases h
    exact ⟨by simp, .inr ⟨rfl, by simp⟩⟩
  · rw [hsingleton] at h ⊢
    cases h
    exact ⟨by simp, .inl ⟨rfl, rfl⟩⟩

/-- Both kinds of body become a group with the statements of the block in it. Without statements
there may be no body at all. -/
theorem body?_cases {block : Block} (h : t.block? identity = some block) :
    (∃ body, t.body? source identity = some body ∧ body.kind = .group ∧
      body.children = lowerWhere source block.isStatement true block.path 0 block.children) ∨
    t.body? source identity = none ∧ ∀ m ∈ block.children, ¬block.isStatement m = true := by
  rw [block?] at h
  rw [body?]
  cases hfield : t.fieldAt? "body" with
  | some found =>
    obtain ⟨body, i⟩ := found
    simp only [hfield] at h
    split_ifs at h with htype
    cases h
    refine .inl ⟨⟨i :: identity, .group,
      lowerWhere source (·.named) true (i :: identity) 0 body.children, body.line, body.column⟩,
      ?_, rfl, rfl⟩
    simp only [lowerIn, hfield, Option.bind_some]
    rw [lower_eq, form, htype]
    rfl
  | none =>
    simp only [hfield] at h
    cases h
    cases hfirst : t.children.find? isStatement with
    | none => exact .inr ⟨rfl, List.find?_eq_none.mp hfirst⟩
    | some first => exact .inl ⟨t.looseBody source identity first, rfl, rfl, rfl⟩

theorem body?_of_block? {block : Block} {m : ParseTree} (h : t.block? identity = some block)
    (hm : m ∈ block.children) (hstatement : block.isStatement m = true) :
    ∃ body, t.body? source identity = some body ∧ body.kind = .group ∧
      body.children = lowerWhere source block.isStatement true block.path 0 block.children :=
  (body?_cases h).resolve_right fun hnone => hnone.2 m hm hstatement

section Statement

variable {keep : ParseTree → Bool} {trees : List ParseTree} {j : Nat} {m : ParseTree} {n : Node}

/-- A statement stands after the nodes of the statements before it. -/
theorem lowerWhere_split (hm : trees[j]? = some m) (hkeep : keep m = true)
    (hn : lower source true (j :: identity) m = some n) :
    ∃ later, lowerWhere source keep true identity 0 trees =
      lowerWhere source keep true identity 0 (trees.take j) ++ .node n :: later := by
  obtain ⟨hlt, rfl⟩ := List.getElem?_eq_some_iff.mp hm
  have hlength : 0 + (trees.take j).length = j := by
    rw [List.length_take]
    omega
  refine ⟨lowerWhere source keep true identity (j + 1) (trees.drop (j + 1)), ?_⟩
  conv_lhs => rw [← List.take_append_drop j trees, lowerWhere_append, hlength,
    List.drop_eq_getElem_cons hlt, lowerWhere]
  simp [hkeep, hn]

/-- The path of a statement tells it from all statements before it. -/
theorem findIdx?_isSame_lowerWhere (hm : trees[j]? = some m) (hkeep : keep m = true)
    (hn : lower source true (j :: identity) m = some n) :
    (lowerWhere source keep true identity 0 trees).findIdx? (Child.isSame n) =
      some (lowerWhere source keep true identity 0 (trees.take j)).length := by
  obtain ⟨later, hsplit⟩ := lowerWhere_split hm hkeep hn
  have hbefore : (lowerWhere source keep true identity 0 (trees.take j)).findIdx?
      (Child.isSame n) = none := by
    rw [List.findIdx?_eq_none_iff]
    intro c hc
    obtain ⟨i, t, other, hi, -, hother, rfl⟩ := mem_lowerWhere.mp hc
    have hlt : i < j := by
      have := (List.getElem?_eq_some_iff.mp hi).1
      rw [List.length_take] at this
      omega
    rw [Child.isSame, lower_identity hn, lower_identity hother]
    simp
    omega
  rw [hsplit, List.findIdx?_append, hbefore, List.findIdx?_cons]
  simp [Child.isSame]

/-- The last visibility statement before a statement of a block decides its visibility. -/
theorem visibilityIn_block {body : Node} {outer : Scope}
    (hbody : body.children = lowerWhere source keep true identity 0 trees)
    (hm : trees[j]? = some m) (hkeep : keep m = true)
    (hn : lower source true (j :: identity) m = some n) :
    n.visibilityIn (body :: outer) =
      (((trees.take j).filter keep).reverse.findSome? (visibility? source)).getD .pub := by
  obtain ⟨later, hsplit⟩ := lowerWhere_split hm hkeep hn
  rw [Node.visibilityIn_eq n body outer (hbody ▸ findIdx?_isSame_lowerWhere hm hkeep hn), hbody,
    hsplit, List.take_left, foldl_after_lowerWhere, findSome?_reverse_getD]

end Statement

end ParseTree

end RubyOutline
