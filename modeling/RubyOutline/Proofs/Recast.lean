import RubyOutline.Proofs.Twin

namespace RubyOutline

theorem optionRel_imp {α β : Type} {R Q : α → β → Prop} {a : Option α} {b : Option β}
    (h : Option.Rel R a b) (himp : ∀ x y, R x y → Q x y) : Option.Rel Q a b := by
  cases h with
  | none => exact .none
  | some h => exact .some (himp _ _ h)

theorem forall₂_through {α β γ δ : Type} {R : α → β → Prop} {A : α → γ → Prop} {B : β → δ → Prop}
    {Q : γ → δ → Prop} {xs : List α} {ys : List β} {cs : List γ} {ds : List δ}
    (hleft : List.Forall₂ A xs cs) (h : List.Forall₂ R xs ys) (hright : List.Forall₂ B ys ds)
    (himp : ∀ x y c d, A x c → R x y → B y d → Q c d) : List.Forall₂ Q cs ds := by
  induction h generalizing cs ds with
  | nil =>
    cases hleft
    cases hright
    exact .nil
  | cons hxy _ ih =>
    cases hleft with
    | cons hxc hleft =>
      cases hright with
      | cons hyd hright => exact .cons (himp _ _ _ _ hxc hxy hyd) (ih hleft hright)

section OptionalNode

variable {found found' : Option Node}
  (h : Option.Rel (fun n n' => n.Twin n' ∧ n'.line = n.line) found found')

include h

theorem Child.pairs_ofNode? : Child.Pairs Node.Twin (.ofNode? found) (.ofNode? found') := by
  cases h with
  | none => exact .absent
  | some h => exact .node h.1

theorem Child.firstLine?_ofNode? (rest rest' : List Child) :
    Child.firstLine? (.ofNode? found' :: rest') = Child.firstLine? (.ofNode? found :: rest) := by
  cases h with
  | none => rfl
  | some h => exact congrArg some h.2

theorem Child.pairs_toList :
    List.Forall₂ (Child.Pairs Node.Twin) (found.toList.map .node) (found'.toList.map .node) := by
  cases h with
  | none => exact .nil
  | some h => exact .cons (.node h.1) .nil

end OptionalNode

theorem Form.plainKind_reads_nothing (type : String) :
    ¬((Form.plainKind type).readsFirst = true ∨ Form.plainKind type = .call) := by
  rcases Form.plainKind_cases type with hkind | hkind | hkind <;> simp [hkind, Kind.readsFirst]

namespace ParseTree

variable {source : List UInt8} {statement : Bool} {identity : Identity} {t : ParseTree}

theorem line_of_lower {n : Node} (h : lower source statement identity t = some n) :
    n.line = t.line := by
  rw [lower_eq] at h
  obtain ⟨-, -, rfl⟩ := Option.map_eq_some_iff.mp h
  rfl

/-- The second parse tree is the first one with other children, and it becomes a twin of what the
first one becomes, wherever the two stand. -/
structure Recast (source : List UInt8) (t t' : ParseTree) : Prop where
  same : ∃ children, t' = { t with children }
  twin : ∀ (statement : Bool) (identity identity' : Identity),
    Option.Rel Node.Twin (lower source statement identity t)
      (lower source statement identity' t')

/-- Those of a list of parse trees that are lowered: comments are not. -/
def content (keep : ParseTree → Bool) (trees : List ParseTree) : List ParseTree :=
  trees.filter fun t => keep t && !t.isComment

/-- What stands inside the two parse trees is recast. -/
def Inside (source : List UInt8) (t t' : ParseTree) : Prop :=
  List.Forall₂ (Recast source) (content (·.named) t.children) (content (·.named) t'.children)

variable {t' : ParseTree} {identity' : Identity}

theorem Recast.twin_at_line (h : Recast source t t') (statement : Bool)
    (identity identity' : Identity) :
    Option.Rel (fun n n' => n.Twin n' ∧ n'.line = n.line) (lower source statement identity t)
      (lower source statement identity' t') := by
  have hline : t'.line = t.line := by
    obtain ⟨children, rfl⟩ := h.same
    rfl
  have htwin := h.twin statement identity identity'
  generalize hn : lower source statement identity t = found at htwin ⊢
  generalize hn' : lower source statement identity' t' = found' at htwin ⊢
  cases htwin with
  | none => exact .none
  | some htwin => exact .some ⟨htwin, by rw [line_of_lower hn, line_of_lower hn', hline]⟩

theorem content_cons (keep : ParseTree → Bool) (t : ParseTree) (rest : List ParseTree) :
    content keep (t :: rest) =
      if keep t && !t.isComment then t :: content keep rest else content keep rest :=
  List.filter_cons

/-- The children made of a list of parse trees are the nodes of its content, one by one. -/
theorem forall₂_lowerWhere (keep : ParseTree → Bool) (index : Nat) (trees : List ParseTree) :
    List.Forall₂ (fun t c => ∃ (place : Identity) (n : Node),
      lower source statement place t = some n ∧ c = .node n)
      (content keep trees) (lowerWhere source keep statement identity index trees) := by
  induction trees generalizing index with
  | nil => exact .nil
  | cons t rest ih =>
    rw [content_cons, lowerWhere]
    by_cases hkeep : keep t = true
    · cases hn : lower source statement (index :: identity) t with
      | none =>
        have hcomment := lower_eq_none_iff.mp hn
        simpa [hkeep, hcomment] using ih (index + 1)
      | some n =>
        have hcomment : t.isComment = false := by
          rw [← Bool.not_eq_true, ← lower_eq_none_iff, hn]
          simp
        simp only [hkeep, hcomment]
        exact .cons ⟨_, n, hn, rfl⟩ (ih (index + 1))
    · simpa [hkeep] using ih (index + 1)

/-- The places of parse trees do not matter to the children that are made of them. -/
theorem pairs_lowerWhere {keep keep' : ParseTree → Bool} {trees trees' : List ParseTree}
    (h : List.Forall₂ (Recast source) (content keep trees) (content keep' trees'))
    (statement : Bool) (identity identity' : Identity) (index index' : Nat) :
    List.Forall₂ (Child.Pairs Node.Twin) (lowerWhere source keep statement identity index trees)
      (lowerWhere source keep' statement identity' index' trees') := by
  refine forall₂_through (forall₂_lowerWhere keep index trees) h
    (forall₂_lowerWhere keep' index' trees') ?_
  rintro t t' _ _ ⟨place, n, hn, rfl⟩ hrecast ⟨place', n', hn', rfl⟩
  have htwin := hrecast.twin statement place place'
  rw [hn, hn'] at htwin
  cases htwin with
  | some htwin => exact .node htwin

theorem fieldAt?_cases {R : ParseTree → ParseTree → Prop} {name : String}
    (h : Option.Rel R (t.field? name) (t'.field? name)) :
    t.fieldAt? name = none ∧ t'.fieldAt? name = none ∨
      ∃ (c c' : ParseTree) (i i' : Nat), t.fieldAt? name = some (c, i) ∧
        t'.fieldAt? name = some (c', i') ∧ R c c' := by
  rw [← map_fst_fieldAt?, ← map_fst_fieldAt?] at h
  cases hfound : t.fieldAt? name with
  | none =>
    cases hfound' : t'.fieldAt? name with
    | none => exact .inl ⟨rfl, rfl⟩
    | some found' =>
      rw [hfound, hfound'] at h
      cases h
  | some found =>
    cases hfound' : t'.fieldAt? name with
    | none =>
      rw [hfound, hfound'] at h
      cases h
    | some found' =>
      rw [hfound, hfound'] at h
      cases h with
      | some h => exact .inr ⟨_, _, _, _, rfl, rfl, h⟩

theorem rel_lowerIn {name : String}
    (h : Option.Rel (Recast source) (t.field? name) (t'.field? name)) (statement : Bool)
    (identity identity' : Identity) :
    Option.Rel (fun n n' => n.Twin n' ∧ n'.line = n.line)
      (t.lowerIn source name statement identity) (t'.lowerIn source name statement identity') := by
  rw [lowerIn, lowerIn]
  rcases fieldAt?_cases h with ⟨hnone, hnone'⟩ | ⟨c, c', i, i', hfound, hfound', hrecast⟩
  · rw [hnone, hnone']
    exact .none
  · rw [hfound, hfound']
    exact hrecast.twin_at_line statement _ _

theorem lowerWhere_eq_nil {keep : ParseTree → Bool} {index : Nat} {trees : List ParseTree}
    (h : content keep trees = []) :
    lowerWhere source keep statement identity index trees = [] := by
  have hnodes := @forall₂_lowerWhere source statement identity keep index trees
  rwa [h, List.forall₂_nil_left_iff] at hnodes

/-- Bodies with the same content are twins, unless one of them is empty and the other not there. -/
theorem pairs_body {block block' : Block} (hblock : t.block? identity = some block)
    (hblock' : t'.block? identity' = some block')
    (h : List.Forall₂ (Recast source) (content block.isStatement block.children)
      (content block'.isStatement block'.children)) :
    Child.Pairs Node.Twin (.ofNode? (t.body? source identity))
      (.ofNode? (t'.body? source identity')) := by
  have hnothing {block : Block} (hno : ∀ m ∈ block.children, ¬block.isStatement m = true) :
      content block.isStatement block.children = [] := by
    refine List.filter_eq_nil_iff.mpr fun m hm => ?_
    simp [hno m hm]
  rcases body?_cases hblock with ⟨body, hbody, hkind, hchildren⟩ | ⟨hbody, hno⟩
  · rcases body?_cases hblock' with ⟨body', hbody', hkind', hchildren'⟩ | ⟨hbody', hno'⟩
    · rw [hbody, hbody']
      refine .node (.mk ⟨hkind'.trans hkind.symm, fun hne => absurd hkind hne, ?_, ?_, ?_⟩ ?_)
      · simp [hkind, Kind.readsFirst]
      · rw [hchildren]
        exact pairwise_apart_lowerWhere _ _ _
      · rw [hchildren']
        exact pairwise_apart_lowerWhere _ _ _
      · rw [hchildren, hchildren']
        exact pairs_lowerWhere h true _ _ 0 0
    · rw [hbody, hbody']
      rw [hnothing hno', List.forall₂_nil_right_iff] at h
      exact .emptied hkind (hchildren.trans (lowerWhere_eq_nil h))
  · rcases body?_cases hblock' with ⟨body', hbody', hkind', hchildren'⟩ | ⟨hbody', -⟩
    · rw [hbody, hbody']
      rw [hnothing hno, List.forall₂_nil_left_iff] at h
      exact .filled hkind' (hchildren'.trans (lowerWhere_eq_nil h))
    · rw [hbody, hbody']
      exact .absent

/-- What two parse trees have to share so that one is the other recast. -/
structure SameParts (source : List UInt8) (t t' : ParseTree) : Prop where
  same : ∃ children, t' = { t with children }
  field : ∀ name, name ≠ "body" → Option.Rel (Recast source) (t.field? name) (t'.field? name)
  body : ∀ identity identity', Child.Pairs Node.Twin (.ofNode? (t.body? source identity))
    (.ofNode? (t'.body? source identity'))
  arguments : Form.ofType t.type = .call →
    Option.Rel (Inside source) (t.field? "arguments") (t'.field? "arguments")
  inside : Form.ofType t.type = .plain ∨ Form.ofType t.type = .identifier → Inside source t t'

namespace SameParts

theorem word (h : SameParts source t t') {name : String} (hname : name ≠ "body") :
    (t'.field? name).map (·.text source) = (t.field? name).map (·.text source) := by
  have hfield := h.field name hname
  generalize t.field? name = found at hfield ⊢
  generalize t'.field? name = found' at hfield ⊢
  cases hfield with
  | none => rfl
  | some hrecast =>
    obtain ⟨children, rfl⟩ := hrecast.same
    rfl

theorem place (h : SameParts source t t') {name : String} (hname : name ≠ "body")
    (identity identity' : Identity) :
    Option.Rel (fun n n' => n.Twin n' ∧ n'.line = n.line) (t.lowerIn source name false identity)
      (t'.lowerIn source name false identity') :=
  rel_lowerIn (h.field name hname) false identity identity'

theorem pairs_arguments (h : SameParts source t t') (hcall : Form.ofType t.type = .call)
    (identity identity' : Identity) :
    List.Forall₂ (Child.Pairs Node.Twin) (t.argumentsIn source identity)
      (t'.argumentsIn source identity') := by
  rw [argumentsIn, argumentsIn]
  rcases fieldAt?_cases (h.arguments hcall) with
    ⟨hnone, hnone'⟩ | ⟨c, c', i, i', hfound, hfound', hinside⟩
  · rw [hnone, hnone']
    exact .nil
  · rw [hfound, hfound']
    exact pairs_lowerWhere hinside false _ _ 0 0

/-- The kinds are the same and the children stand in the same places. -/
theorem pairs_form (h : SameParts source t t') (statement : Bool)
    (identity identity' : Identity) :
    Option.Rel (fun made made' => made'.1 = made.1 ∧
        List.Forall₂ (Child.Pairs Node.Twin) made.2 made'.2 ∧
        (made.1.readsFirst = true ∨ made.1 = .call →
          Child.firstLine? made'.2 = Child.firstLine? made.2))
      (t.form source statement identity) (t'.form source statement identity') := by
  have htype : t'.type = t.type := by
    obtain ⟨children, rfl⟩ := h.same
    rfl
  have htext : t'.text source = t.text source := by
    obtain ⟨children, rfl⟩ := h.same
    rfl
  have hplace {name : String} (hname : name ≠ "body") :=
    Child.pairs_ofNode? (h.place hname identity identity')
  have hword {name : String} (hname : name ≠ "body") : Child.Pairs Node.Twin
      (.ofName? ((t.field? name).map (·.text source)))
      (.ofName? ((t'.field? name).map (·.text source))) := by
    rw [h.word hname]
    cases (t.field? name).map (·.text source) with
    | none => exact .absent
    | some text => exact .name text
  have hfirst {name : String} (hname : name ≠ "body") :=
    Child.firstLine?_ofNode? (h.place hname identity identity')
  rw [form, form, htype, htext]
  cases hform : Form.ofType t.type with
  | comment => exact .none
  | classDef =>
    refine .some ⟨rfl, ?_, fun _ => hfirst (by simp) _ _⟩
    exact .cons (hplace (by simp)) (.cons (hplace (by simp)) (.cons (h.body _ _) .nil))
  | moduleDef =>
    refine .some ⟨rfl, ?_, fun _ => hfirst (by simp) _ _⟩
    exact .cons (hplace (by simp)) (.cons (h.body _ _) .nil)
  | singletonClass =>
    refine .some ⟨rfl, ?_, by simp [Kind.readsFirst]⟩
    exact .cons (hplace (by simp)) (.cons (h.body _ _) .nil)
  | methodDef =>
    refine .some ⟨rfl, ?_, by simp [Kind.readsFirst]⟩
    exact .cons (hword (by simp)) (.cons (hplace (by simp)) (.cons (h.body _ _) .nil))
  | singletonDef =>
    refine .some ⟨rfl, ?_, fun _ => hfirst (by simp) _ _⟩
    exact .cons (hplace (by simp)) (.cons (hword (by simp)) (.cons (hplace (by simp))
      (.cons (h.body _ _) .nil)))
  | constant =>
    refine .some ⟨rfl, ?_, by simp [Kind.readsFirst]⟩
    exact .cons .absent (.cons (.name _) .nil)
  | scopedConstant =>
    refine .some ⟨rfl, ?_, by simp [Kind.readsFirst]⟩
    exact .cons (hplace (by simp)) (.cons (hword (by simp)) .nil)
  | selfRef => exact .some ⟨rfl, .nil, by simp [Kind.readsFirst]⟩
  | call =>
    refine .some ⟨rfl, ?_, fun _ => hfirst (by simp) _ _⟩
    rw [h.word (by simp)]
    refine .cons (hplace (by simp)) (.cons (.name _) ?_)
    exact List.rel_append (h.pairs_arguments hform identity identity')
      (Child.pairs_toList (h.place (by simp) identity identity'))
  | identifier =>
    cases statement with
    | true =>
      refine .some ⟨rfl, ?_, fun _ => rfl⟩
      exact .cons .absent (.cons (.name _) .nil)
    | false =>
      refine .some ⟨rfl, ?_, by simp [Kind.readsFirst]⟩
      exact pairs_lowerWhere (h.inside (.inr hform)) false _ _ 0 0
  | plain =>
    refine .some ⟨rfl, ?_, fun hreads => absurd hreads (Form.plainKind_reads_nothing t.type)⟩
    exact pairs_lowerWhere (h.inside (.inl hform)) _ _ _ 0 0

/-- Parse trees with the same parts become twins. -/
theorem recast (h : SameParts source t t') : Recast source t t' := by
  refine ⟨h.same, fun statement identity identity' => ?_⟩
  have hline : t'.line = t.line := by
    obtain ⟨children, rfl⟩ := h.same
    rfl
  have hform := h.pairs_form statement identity identity'
  rw [lower_eq, lower_eq]
  generalize hmade : t.form source statement identity = made at hform ⊢
  generalize hmade' : t'.form source statement identity' = made' at hform ⊢
  cases hform with
  | none => exact .none
  | some hform =>
    obtain ⟨hkind, hplaces, hfirst⟩ := hform
    exact .some (.mk ⟨hkind, fun _ => hline, hfirst, pairwise_apart_form hmade,
      pairwise_apart_form hmade'⟩ hplaces)

end SameParts

/-- The second list has related parse trees, less some comments that fill no field. -/
inductive Edited (R : ParseTree → ParseTree → Prop) : List ParseTree → List ParseTree → Prop where
  | nil : Edited R [] []
  | keep {t t' : ParseTree} {trees trees' : List ParseTree} (h : R t t')
      (hrest : Edited R trees trees') : Edited R (t :: trees) (t' :: trees')
  | drop {t : ParseTree} {trees trees' : List ParseTree} (hcomment : t.isComment = true)
      (hfield : t.field = none) (hrest : Edited R trees trees') : Edited R (t :: trees) trees'

namespace Edited

variable {R Q : ParseTree → ParseTree → Prop} {trees trees' : List ParseTree}

theorem imp (h : Edited R trees trees') (himp : ∀ t t', R t t' → Q t t') :
    Edited Q trees trees' := by
  induction h with
  | nil => exact .nil
  | keep h _ ih => exact .keep (himp _ _ h) ih
  | drop hcomment hfield _ ih => exact .drop hcomment hfield ih

theorem find? (h : Edited R trees trees') (name : String)
    (hsame : ∀ t t', R t t' → ∃ children, t' = { t with children }) :
    Option.Rel R (trees.find? (·.fills name)) (trees'.find? (·.fills name)) := by
  induction h with
  | nil => exact .none
  | @keep t t' _ _ h _ ih =>
    have hfills : t'.fills name = t.fills name := by
      obtain ⟨children, rfl⟩ := hsame t t' h
      rfl
    rw [List.find?_cons, List.find?_cons, hfills]
    cases t.fills name with
    | true => exact .some h
    | false => exact ih
  | @drop t _ _ _ hfield _ ih =>
    have hfills : t.fills name = false := by simp [fills, hfield]
    rwa [List.find?_cons, hfills]

theorem content (h : Edited (Recast source) trees trees') {keep : ParseTree → Bool}
    (hkeep : ∀ (t : ParseTree) (children : List ParseTree), keep { t with children } = keep t) :
    List.Forall₂ (Recast source) (content keep trees) (content keep trees') := by
  induction h with
  | nil => exact .nil
  | @keep t t' _ _ h _ ih =>
    have hsame : keep t' = keep t ∧ t'.isComment = t.isComment := by
      obtain ⟨children, rfl⟩ := h.same
      exact ⟨hkeep t children, rfl⟩
    rw [content_cons, content_cons, hsame.1, hsame.2]
    split
    · exact .cons h ih
    · exact ih
  | drop hcomment _ _ ih => simpa [content_cons, hcomment] using ih

variable {children : List ParseTree}

theorem inside (h : Edited (Recast source) t.children children) :
    Inside source t { t with children } :=
  h.content fun _ _ => rfl

theorem field (h : Edited (Recast source) t.children children) (name : String) :
    Option.Rel (Recast source) (t.field? name) ({ t with children }.field? name) :=
  h.find? name fun _ _ hrecast => hrecast.same

theorem body (h : Edited (Recast source) t.children children) (identity identity' : Identity) :
    Child.Pairs Node.Twin (.ofNode? (t.body? source identity))
      (.ofNode? ({ t with children }.body? source identity')) := by
  rcases fieldAt?_cases (h.field "body") with ⟨hnone, hnone'⟩ | ⟨c, c', i, i', hfound, hfound', -⟩
  · have hblock : t.block? identity = some ⟨identity, t.children, isStatement⟩ := by
      rw [block?, hnone]
    have hblock' : { t with children }.block? identity' =
        some ⟨identity', children, isStatement⟩ := by
      rw [block?, hnone']
    exact pairs_body hblock hblock' (h.content fun _ _ => rfl)
  · rw [body?, body?, hfound, hfound']
    exact Child.pairs_ofNode? (rel_lowerIn (h.field "body") true identity identity')

/-- A parse tree with edited children is recast, if the arguments that it reads are. -/
theorem recast (h : Edited (Recast source) t.children children)
    (harguments : Form.ofType t.type = .call →
      Option.Rel (Inside source) (t.field? "arguments") ({ t with children }.field? "arguments")) :
    Recast source t { t with children } :=
  SameParts.recast ⟨⟨children, rfl⟩, fun name _ => h.field name, h.body, harguments,
    fun _ => h.inside⟩

end Edited

/-- Parse trees that become twins give the same features. -/
theorem Recast.extract_agrees {text path : String} (h : Recast (Utf8.encode text) t t')
    (hroot : t.isComment = false) :
    ∃ tree tree', t.toNode? text = some tree ∧ t'.toNode? text = some tree' ∧
      (extract path (.node tree)).Agrees (extract path (.node tree')) := by
  have htwin := h.twin_at_line true [] []
  have hsome : lower (Utf8.encode text) true [] t ≠ none := by
    rw [ne_eq, lower_eq_none_iff, hroot]
    simp
  unfold toNode?
  generalize lower (Utf8.encode text) true [] t = found at htwin hsome ⊢
  generalize lower (Utf8.encode text) true [] t' = found' at htwin ⊢
  cases htwin with
  | none => exact absurd rfl hsome
  | @some tree tree' htwin =>
    exact ⟨tree, tree', rfl, rfl, htwin.1.extract_agrees htwin.2 path⟩

end ParseTree

end RubyOutline
