import RubyOutline.Proofs.Recast

namespace RubyOutline

namespace ParseTree

def isDeclaration (t : ParseTree) : Bool :=
  ["class", "module", "singleton_class", "method", "singleton_method"].contains t.type

/-- The statements of a declaration stand in a body of their own: one list of statements fills the
field, no statement fills any field, and all else that is named in the declaration fills one. -/
def hasOwnBody (t : ParseTree) : Bool :=
  t.isDeclaration && (t.children.all fun c => !c.named || c.field.isSome) &&
    match t.children.filter (·.fills "body") with
    | [body] => body.type == "body_statement" && body.children.all (·.field.isNone)
    | _ => false

/-- The children of a declaration, with those of its body in the place of the body. -/
def spliceBody (children : List ParseTree) : List ParseTree :=
  children.flatMap fun c => if c.fills "body" then c.children else [c]

mutual

/-- The parse tree in which the statements of the declarations that are chosen by their paths stand
straight under the declaration; `path` is the path of the parse tree itself. -/
def withLooseBodies (chosen : Identity → Bool) (path : Identity) : ParseTree → ParseTree
  | t@⟨type, start, stop, row, column, named, missing, field, children⟩ =>
    let inner := withLooseBodiesAll chosen path 0 children
    ⟨type, start, stop, row, column, named, missing, field,
      if chosen path && t.hasOwnBody then spliceBody inner else inner⟩

def withLooseBodiesAll (chosen : Identity → Bool) (path : Identity) :
    (index : Nat) → List ParseTree → List ParseTree
  | _, [] => []
  | index, t :: rest =>
    t.withLooseBodies chosen (index :: path) :: withLooseBodiesAll chosen path (index + 1) rest

end

variable {source : List UInt8} {chosen : Identity → Bool} {path : Identity}

theorem withLooseBodies_eq (chosen : Identity → Bool) (path : Identity) (t : ParseTree) :
    t.withLooseBodies chosen path = { t with
      children :=
        if chosen path && t.hasOwnBody then spliceBody (withLooseBodiesAll chosen path 0 t.children)
        else withLooseBodiesAll chosen path 0 t.children } := by
  obtain ⟨type, start, stop, row, column, named, missing, field, children⟩ := t
  rw [withLooseBodies]

theorem withLooseBodies_of_not {t : ParseTree} (h : ¬(chosen path && t.hasOwnBody) = true) :
    t.withLooseBodies chosen path =
      { t with children := withLooseBodiesAll chosen path 0 t.children } := by
  rw [withLooseBodies_eq, if_neg h]

theorem withLooseBodiesAll_eq (index : Nat) (trees : List ParseTree) :
    withLooseBodiesAll chosen path index trees =
      (trees.zipIdx index).map fun (t, i) => t.withLooseBodies chosen (i :: path) := by
  induction trees generalizing index with
  | nil => rfl
  | cons t rest ih => rw [withLooseBodiesAll, List.zipIdx_cons, List.map_cons, ih]

theorem fills_withLooseBodies (name : String) (t : ParseTree) :
    (t.withLooseBodies chosen path).fills name = t.fills name := by
  rw [withLooseBodies_eq]
  rfl

theorem field?_withLooseBodiesAll (name : String) (t : ParseTree) :
    (withLooseBodiesAll chosen path 0 t.children).find? (·.fills name) =
      (t.fieldAt? name).map fun (c, i) => c.withLooseBodies chosen (i :: path) := by
  rw [withLooseBodiesAll_eq, List.find?_map, fieldAt?]
  congr
  funext c
  exact fills_withLooseBodies name c.1

section Splice

variable {trees : List ParseTree}
  (hloose : ∀ c ∈ trees, c.fills "body" = true → ∀ d ∈ c.children, d.field = none)

include hloose

theorem find?_spliceBody {name : String} (hne : name ≠ "body") :
    (spliceBody trees).find? (·.fills name) = trees.find? (·.fills name) := by
  induction trees with
  | nil => rfl
  | cons c rest ih =>
    have hrest := ih fun d hd => hloose d (List.mem_cons_of_mem _ hd)
    rw [spliceBody] at hrest ⊢
    rw [List.flatMap_cons, List.find?_append, hrest, List.find?_cons]
    by_cases hbody : c.fills "body" = true
    · have hinside : c.children.find? (·.fills name) = none := by
        refine List.find?_eq_none.mpr fun d hd => ?_
        rw [fills, hloose c List.mem_cons_self hbody d hd]
        simp
      have hother : c.fills name = false := by
        rw [fills, beq_iff_eq] at hbody
        rw [fills, hbody]
        simpa using hne.symm
      rw [if_pos hbody, hinside, hother]
      rfl
    · rw [if_neg hbody, List.find?_singleton]
      cases c.fills name <;> rfl

theorem find?_body_spliceBody : (spliceBody trees).find? (·.fills "body") = none := by
  refine List.find?_eq_none.mpr fun d hd => ?_
  obtain ⟨c, hc, hd⟩ := List.mem_flatMap.mp hd
  by_cases hbody : c.fills "body" = true
  · rw [if_pos hbody] at hd
    rw [fills, hloose c hc hbody d hd]
    simp
  · rw [if_neg hbody, List.mem_singleton] at hd
    rwa [hd]

/-- The statements straight under a spliced declaration are those that its bodies had. -/
theorem content_spliceBody (hfields : ∀ c ∈ trees, c.named = true → c.field.isSome = true) :
    content isStatement (spliceBody trees) =
      (trees.filter (·.fills "body")).flatMap fun c => content (·.named) c.children := by
  induction trees with
  | nil => rfl
  | cons c rest ih =>
    have hrest := ih (fun d hd => hloose d (List.mem_cons_of_mem _ hd))
      fun d hd => hfields d (List.mem_cons_of_mem _ hd)
    rw [spliceBody, content] at hrest ⊢
    rw [List.flatMap_cons, List.filter_append, hrest]
    by_cases hbody : c.fills "body" = true
    · rw [if_pos hbody, List.filter_cons_of_pos hbody, List.flatMap_cons]
      congr 1
      refine List.filter_congr fun d hd => ?_
      simp [isStatement, hloose c List.mem_cons_self hbody d hd]
    · rw [if_neg hbody, List.filter_cons_of_neg hbody]
      have hnone : isStatement c = false := by
        cases hnamed : c.named with
        | false => simp [isStatement, hnamed]
        | true =>
          have hfield := hfields c List.mem_cons_self hnamed
          rw [isStatement, hnamed, Bool.true_and, ← Option.not_isSome, hfield]
          rfl
      simp [hnone]

end Splice

/-- What a declaration with a body of its own consists of. -/
theorem hasOwnBody_parts {t : ParseTree} (h : t.hasOwnBody = true) :
    t.isDeclaration = true ∧ (∀ c ∈ t.children, c.named = true → c.field.isSome = true) ∧
      ∃ (body : ParseTree) (i : Nat),
        t.children.zipIdx.filter (·.1.fills "body") = [(body, i)] ∧
        body.type = "body_statement" ∧ ∀ d ∈ body.children, d.field = none := by
  simp only [hasOwnBody, Bool.and_eq_true, List.all_eq_true] at h
  obtain ⟨⟨hdeclaration, hfields⟩, hbody⟩ := h
  refine ⟨hdeclaration, fun c hc hnamed => by simpa [hnamed] using hfields c hc, ?_⟩
  have hplaces : (t.children.zipIdx.filter (·.1.fills "body")).map Prod.fst =
      t.children.filter (·.fills "body") := by
    conv_rhs => rw [← List.zipIdx_map_fst 0 t.children, List.filter_map]
    rfl
  rw [← hplaces] at hbody
  match hfound : t.children.zipIdx.filter (·.1.fills "body") with
  | [] => simp [hfound] at hbody
  | _ :: _ :: _ => simp [hfound] at hbody
  | [(body, i)] =>
    rw [hfound] at hbody
    simp only [List.map_cons, List.map_nil, Bool.and_eq_true, beq_iff_eq, List.all_eq_true,
      Option.isNone_iff_eq_none] at hbody
    exact ⟨body, i, hfound, hbody⟩

theorem edited_withLooseBodiesAll {R : ParseTree → ParseTree → Prop} {index : Nat}
    {trees : List ParseTree}
    (h : ∀ (i : Nat) (c : ParseTree), trees[i]? = some c →
      R c (c.withLooseBodies chosen ((index + i) :: path))) :
    Edited R trees (withLooseBodiesAll chosen path index trees) := by
  induction trees generalizing index with
  | nil => exact .nil
  | cons t rest ih =>
    refine .keep (h 0 t rfl) (ih fun i c hc => ?_)
    rw [Nat.add_right_comm, Nat.add_assoc]
    exact h (i + 1) c hc

theorem mem_withLooseBodiesAll {index : Nat} {trees : List ParseTree} {d : ParseTree}
    (h : d ∈ withLooseBodiesAll chosen path index trees) :
    ∃ c ∈ trees, ∃ children, d = { c with children } := by
  rw [withLooseBodiesAll_eq] at h
  obtain ⟨⟨c, i⟩, hc, rfl⟩ := List.mem_map.mp h
  exact ⟨c, List.fst_mem_of_mem_zipIdx hc, _, withLooseBodies_eq chosen (i :: path) c⟩

theorem form_of_isDeclaration {t : ParseTree} (h : t.isDeclaration = true) :
    Form.ofType t.type ≠ .call ∧ Form.ofType t.type ≠ .plain ∧
      Form.ofType t.type ≠ .identifier := by
  simp only [isDeclaration, List.contains_iff_mem, List.mem_cons, List.not_mem_nil, or_false] at h
  rcases h with h | h | h | h | h <;> rw [h] <;> decide

/-- In a declaration with a body of its own the body, and only that, still holds the statements
when all children have been turned. -/
theorem bodies_of_hasOwnBody {t : ParseTree} (h : t.hasOwnBody = true) (chosen : Identity → Bool)
    (path : Identity) :
    ∃ (body : ParseTree) (i : Nat), t.fieldAt? "body" = some (body, i) ∧
      body.type = "body_statement" ∧
      (withLooseBodiesAll chosen path 0 t.children).filter (·.fills "body") =
        [body.withLooseBodies chosen (i :: path)] ∧
      ∀ d ∈ (body.withLooseBodies chosen (i :: path)).children, d.field = none := by
  obtain ⟨-, -, body, i, hfound, htype, hbare⟩ := hasOwnBody_parts h
  have hfills : ((·.fills "body") ∘ fun (c, i) => withLooseBodies chosen (i :: path) c) =
      fun c : ParseTree × Nat => c.1.fills "body" :=
    funext fun c => fills_withLooseBodies "body" c.1
  refine ⟨body, i, ?_, htype, ?_, fun d hd => ?_⟩
  · rw [fieldAt?, ← List.head?_filter, hfound]
    rfl
  · rw [withLooseBodiesAll_eq, List.filter_map, hfills, hfound]
    rfl
  · have hnone : ¬(chosen (i :: path) && body.hasOwnBody) = true := by
      simp [hasOwnBody, isDeclaration, htype]
    rw [withLooseBodies_of_not hnone] at hd
    obtain ⟨e, he, children, rfl⟩ := mem_withLooseBodiesAll hd
    exact hbare e he

/-- A declaration is recast when the statements of its body stand straight under it. -/
theorem recast_spliced {t : ParseTree} (h : t.hasOwnBody = true)
    (hedited : Edited (Recast source) t.children (withLooseBodiesAll chosen path 0 t.children))
    (hinside : ∀ (body : ParseTree) (i : Nat), t.fieldAt? "body" = some (body, i) →
      body.type = "body_statement" → Inside source body (body.withLooseBodies chosen (i :: path))) :
    Recast source t
      { t with children := spliceBody (withLooseBodiesAll chosen path 0 t.children) } := by
  obtain ⟨hdeclaration, hfields, -⟩ := hasOwnBody_parts h
  obtain ⟨body, i, hfieldAt, htype, hbodies, hbare⟩ := bodies_of_hasOwnBody h chosen path
  have hloose : ∀ c ∈ withLooseBodiesAll chosen path 0 t.children, c.fills "body" = true →
      ∀ d ∈ c.children, d.field = none := by
    intro c hc hfills
    have hmem := List.mem_filter.mpr ⟨hc, hfills⟩
    rw [hbodies, List.mem_singleton] at hmem
    rwa [hmem]
  have hnamed : ∀ c ∈ withLooseBodiesAll chosen path 0 t.children, c.named = true →
      c.field.isSome = true := by
    intro c hc
    obtain ⟨e, he, children, rfl⟩ := mem_withLooseBodiesAll hc
    exact hfields e he
  obtain ⟨hcall, hplain, hidentifier⟩ := form_of_isDeclaration hdeclaration
  refine SameParts.recast ⟨⟨_, rfl⟩, fun name hne => ?_, fun identity identity' => ?_,
    fun hform => absurd hform hcall, fun hform => ?_⟩
  · rw [field?, field?, find?_spliceBody hloose hne]
    exact hedited.find? name fun _ _ hrecast => hrecast.same
  · have hblock : t.block? identity = some ⟨i :: identity, body.children, (·.named)⟩ := by
      rw [block?, hfieldAt]
      exact if_pos htype
    have hno : ParseTree.fieldAt? "body"
        { t with children := spliceBody (withLooseBodiesAll chosen path 0 t.children) } = none := by
      rw [← Option.map_eq_none_iff, map_fst_fieldAt?, field?]
      exact find?_body_spliceBody hloose
    refine pairs_body hblock (by rw [block?, hno]) ?_
    rw [content_spliceBody hloose hnamed, hbodies, List.flatMap_singleton]
    exact hinside body i hfieldAt htype
  · exact absurd hform (not_or.mpr ⟨hplain, hidentifier⟩)

/-- The parse tree in which statements stand straight under their declarations is recast, and so is
what stands inside it unless it is such a declaration itself. -/
theorem recast_withLooseBodies {root : ParseTree}
    (hspared : ∀ (path : Identity) (call arguments : ParseTree) (i : Nat),
      root.at? path = some call → call.type = "call" →
      call.fieldAt? "arguments" = some (arguments, i) → chosen (i :: path) = false)
    (t : ParseTree) (path : Identity) (ht : root.at? path = some t) :
    Recast source t (t.withLooseBodies chosen path) ∧
      (¬(chosen path && t.hasOwnBody) = true →
        Inside source t (t.withLooseBodies chosen path)) := by
  induction t using ParseTree.childInduction generalizing path with
  | step t ih =>
    have hchild (i : Nat) (c : ParseTree) (hc : t.children[i]? = some c) :=
      ih c (List.mem_of_getElem? hc) (i :: path) (by rw [at?, ht, Option.bind_some, hc])
    have hedited : Edited (Recast source) t.children
        (withLooseBodiesAll chosen path 0 t.children) := by
      refine edited_withLooseBodiesAll fun i c hc => ?_
      rw [Nat.zero_add]
      exact (hchild i c hc).1
    by_cases hspliced : (chosen path && t.hasOwnBody) = true
    · refine ⟨?_, fun hno => absurd hspliced hno⟩
      rw [withLooseBodies_eq, if_pos hspliced]
      refine recast_spliced (Bool.and_eq_true_iff.mp hspliced).2 hedited fun body i hbody htype =>
        (hchild i body (getElem?_of_fieldAt? hbody)).2 ?_
      simp [hasOwnBody, isDeclaration, htype]
    · rw [withLooseBodies_of_not hspliced]
      refine ⟨hedited.recast fun hcall => ?_, fun _ => hedited.inside⟩
      have htype : t.type = "call" := (Form.ofType_eq_iff (by simp)).mp hcall
      have hfield' : ParseTree.field? "arguments"
          { t with children := withLooseBodiesAll chosen path 0 t.children } =
            (t.fieldAt? "arguments").map fun (c, i) => c.withLooseBodies chosen (i :: path) :=
        field?_withLooseBodiesAll "arguments" t
      rw [← map_fst_fieldAt?, hfield']
      cases harguments : t.fieldAt? "arguments" with
      | none => exact .none
      | some found =>
        obtain ⟨c, i⟩ := found
        refine .some ((hchild i c (getElem?_of_fieldAt? harguments)).2 ?_)
        simp [hspared path t c i ht htype harguments]

end ParseTree

/-- Both shapes of a body give the same features: in any of the declarations of a file that have a
body of their own, the statements of that body may as well stand straight under the declaration.
Only a declaration that a call takes for its arguments is left as it is. -/
theorem body_shapes_agree (path text : String) (cst : ParseTree) (chosen : Identity → Bool)
    (hroot : cst.isComment = false)
    (hspared : ∀ (way : Identity) (call arguments : ParseTree) (i : Nat),
      cst.at? way = some call → call.type = "call" →
      call.fieldAt? "arguments" = some (arguments, i) → chosen (i :: way) = false) :
    ∃ tree tree', cst.toNode? text = some tree ∧
      (cst.withLooseBodies chosen []).toNode? text = some tree' ∧
      (extract path (.node tree)).Agrees (extract path (.node tree')) :=
  (ParseTree.recast_withLooseBodies hspared cst [] rfl).1.extract_agrees hroot

/-- A class with a call, the word `private` and an empty method. -/
def ownBodiesText : String := "class A\nattr :x\nprivate\ndef go\nend\nend\n"

/-- Its parse tree: the class and the method have bodies of their own, the latter without a
statement. -/
def ownBodiesTree : ParseTree :=
  let call : ParseTree :=
    { type := "call", row := 1
      children := [
        { type := "identifier", start := 8, stop := 12, row := 1, field := some "method" },
        { type := "argument_list", start := 13, stop := 15, row := 1, field := some "arguments"
          children := [{ type := "simple_symbol", start := 13, stop := 15, row := 1 }] }] }
  let method : ParseTree :=
    { type := "method", row := 3
      children := [
        { type := "identifier", start := 28, stop := 30, row := 3, field := some "name" },
        { type := "body_statement", start := 30, stop := 30, row := 3, field := some "body" }] }
  { type := "program"
    children := [
      { type := "class"
        children := [
          { type := "constant", start := 6, stop := 7, field := some "name" },
          { type := "body_statement", start := 8, stop := 34, row := 1, field := some "body"
            children := [call, { type := "identifier", start := 16, stop := 23, row := 2 },
              method] }] }] }

theorem body_shapes_agree_ownBodiesTree :
    let chosen : Identity → Bool := ([[0], [2, 1, 0]].contains ·)
    ownBodiesTree.isComment = false ∧
    ∃ tree tree', ownBodiesTree.toNode? ownBodiesText = some tree ∧
      (ownBodiesTree.withLooseBodies chosen []).toNode? ownBodiesText = some tree' ∧
      (extract "a.rb" (.node tree)).features =
        [.classLike "A" "a.rb:1" [.method ⟨"go", "a.rb:4", "A", false, .priv⟩]] ∧
      (extract "a.rb" (.node tree)).Agrees (extract "a.rb" (.node tree')) := by
  intro chosen
  have hspared : ∀ (way : Identity) (call arguments : ParseTree) (i : Nat),
      ownBodiesTree.at? way = some call → call.type = "call" →
      call.fieldAt? "arguments" = some (arguments, i) → chosen (i :: way) = false := by
    intro way call arguments i hcall htype _
    rw [← Bool.not_eq_true]
    intro hchosen
    simp only [chosen, List.contains_iff_mem, List.mem_cons, List.not_mem_nil, or_false,
      List.cons.injEq] at hchosen
    rcases hchosen with ⟨-, rfl⟩ | ⟨-, rfl⟩
    · cases hcall
      exact absurd htype (by decide)
    · cases hcall
      exact absurd htype (by decide)
  obtain ⟨tree, tree', htree, htree', hagrees⟩ :=
    body_shapes_agree "a.rb" ownBodiesText ownBodiesTree chosen rfl hspared
  cases htree
  cases htree'
  exact ⟨rfl, _, _, rfl, rfl, rfl, hagrees⟩

/-- A call that takes a whole class for its arguments. -/
def classArgumentText : String := "run class A\nprivate\ndef b\nend\nend\n"

def classArgumentTree : ParseTree :=
  let method : ParseTree :=
    { type := "method", row := 2
      children := [
        { type := "identifier", start := 24, stop := 25, row := 2, field := some "name" }] }
  let argument : ParseTree :=
    { type := "class", start := 4, stop := 33, field := some "arguments"
      children := [
        { type := "constant", start := 10, stop := 11, field := some "name" },
        { type := "body_statement", start := 12, stop := 29, row := 1, field := some "body"
          children := [{ type := "identifier", start := 12, stop := 19, row := 1 }, method] }] }
  { type := "program"
    children := [
      { type := "call"
        children := [{ type := "identifier", start := 0, stop := 3, field := some "method" },
          argument] }] }

/-- The arguments of a call are no statements: where they are read off a declaration, the word
`private` loses its meaning when it comes to stand straight under that declaration. -/
theorem loose_arguments_lose_visibility :
    classArgumentTree.isComment = false ∧
    (classArgumentTree.at? [1, 0]).map ParseTree.hasOwnBody = some true ∧
    ∃ tree tree', classArgumentTree.toNode? classArgumentText = some tree ∧
      (classArgumentTree.withLooseBodies (· == [1, 0]) []).toNode? classArgumentText = some tree' ∧
      (extract "a.rb" (.node tree)).features = [.method ⟨"b", "a.rb:3", "", false, .priv⟩] ∧
      (extract "a.rb" (.node tree')).features = [.method ⟨"b", "a.rb:3", "", false, .pub⟩] ∧
      ¬(extract "a.rb" (.node tree)).Agrees (extract "a.rb" (.node tree')) := by
  refine ⟨rfl, rfl, _, _, rfl, rfl, rfl, rfl, fun hagrees => ?_⟩
  have hfeatures := hagrees.1
  cases hfeatures

end RubyOutline
