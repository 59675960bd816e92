import RubyOutline.Proofs.WalkListing

namespace RubyOutline

/-- The visibility that a child of a block switches to: it is a call of one of three words, without
receiver and arguments. -/
def Child.switch? : Child → Option Visibility
  | .node ⟨_, .call, [.absent, .name word], _, _⟩ =>
    if word = "public" then some .pub
    else if word = "protected" then some .prot
    else if word = "private" then some .priv
    else none
  | _ => none

/-- The visibility in force after a child of a block; what is no visibility statement leaves it. -/
def Visibility.after (current : Visibility) (c : Child) : Visibility := c.switch?.getD current

/-- The child is the given node, and not only one that looks like it. -/
def Child.isSame (n : Node) : Child → Bool
  | .node m => m.identity == n.identity
  | _ => false

theorem Visibility.ofLabel?_eq (word : String) :
    Visibility.ofLabel? word =
      if word = "public" then some .pub
      else if word = "protected" then some .prot
      else if word = "private" then some .priv
      else none := by
  have hlabel (v : Visibility) : (v.label == word) = decide (word = v.label) := by
    rw [Bool.beq_comm, beq_eq_decide]
  simp only [Visibility.ofLabel?, Visibility.all, List.find?_cons, List.find?_nil, hlabel]
  split_ifs <;> simp_all [Visibility.label]

theorem Child.switch?_eq (c : Child) : c.switch? = c.node?.bind Node.bareVisibility? := by
  cases c with
  | absent | name | literal => rfl
  | node n =>
    obtain ⟨identity, kind, children, line, column⟩ := n
    unfold switch?
    split
    · rename_i heq
      cases heq
      exact (Visibility.ofLabel?_eq _).symm
    · rename_i hne
      simp only [Child.node?, Option.bind_some, Node.bareVisibility?]
      split
      · exact absurd rfl (hne _ _ _ _)
      · rfl

theorem nodesBefore_eq (n : Node) (children : List Child) :
    nodesBefore n children = (children.findIdx? (Child.isSame n)).map fun j =>
      (children.take j).filterMap Child.node? := by
  induction children using Child.listInduction with
  | nil => rfl
  | node m rest ih =>
    rw [nodesBefore, List.findIdx?_cons, ih, Child.isSame]
    by_cases hsame : m.identity = n.identity
    · simp [hsame]
    · simp [hsame, Option.map_map, Function.comp_def, Child.node?]
  | skip c rest hc ih =>
    cases c with
    | node m => simp [Child.node?] at hc
    | absent | name | literal =>
      simp [nodesBefore, ih, List.findIdx?_cons, Child.isSame, Option.map_map, Function.comp_def,
        List.filterMap_cons, Child.node?]

/-- Looking back for the last hit is the same as going forward and keeping the last hit. -/
theorem findSome?_reverse_getD {α β : Type} (f : α → Option β) (items : List α) (start : β) :
    (items.reverse.findSome? f).getD start =
      items.foldl (fun state item => (f item).getD state) start := by
  induction items generalizing start with
  | nil => rfl
  | cons item rest ih =>
    rw [List.reverse_cons, List.findSome?_append, List.foldl_cons, ← ih]
    cases rest.reverse.findSome? f <;> cases hf : f item <;> simp [hf]

theorem foldl_after_eq (children : List Child) (current : Visibility) :
    children.foldl Visibility.after current =
      (children.map Child.switch?).foldl (fun state switch => switch.getD state) current := by
  rw [List.foldl_map]
  rfl

/-- The visibility of a method in a block is what a forward pass reaches at its first occurrence. -/
theorem Node.visibilityIn_eq (n parent : Node) (outer : Scope) {j : Nat}
    (h : parent.children.findIdx? (Child.isSame n) = some j) :
    n.visibilityIn (parent :: outer) = (parent.children.take j).foldl Visibility.after .pub := by
  rw [visibilityIn, precedingSiblings, nodesBefore_eq, h, Option.map_some, Option.getD_some,
    findSome?_reverse_getD, List.foldl_filterMap]
  congr
  funext state c
  rw [Visibility.after, Child.switch?_eq]
  cases c.node? <;> rfl

/-- A node that stands at some place of a block has a first occurrence there, at that place or
before. -/
theorem exists_first_occurrence {children : List Child} {n : Node} {place : Nat}
    (h : children[place]? = some (.node n)) :
    ∃ j ≤ place, children.findIdx? (Child.isSame n) = some j := by
  obtain ⟨hlt, hget⟩ := List.getElem?_eq_some_iff.mp h
  have hsame : Child.isSame n children[place] = true := by
    rw [hget, Child.isSame, beq_self_eq_true]
  have hexists := List.findIdx?_eq_some_of_exists ⟨_, List.getElem_mem hlt, hsame⟩
  refine ⟨_, ?_, hexists⟩
  by_contra hle
  exact absurd hsame (by simpa using List.not_of_lt_findIdx (Nat.lt_of_not_le hle))

/-- In a tree where no node stands at two places, the first occurrence of a node in its block is
the only one. -/
theorem Node.first_occurrence_eq {root parent : Node} {outer : Scope} {o : Occurrence}
    {place j : Nat} {way : List Nat} (hnodup : (root.places.map (·.node.identity)).Nodup)
    (ho : o ∈ root.places) (hscope : o.scope = parent :: outer) (hway : o.way = place :: way)
    (hj : parent.children.findIdx? (Child.isSame o.node) = some j) : j = place := by
  obtain rfl | ⟨i, p, hp, hchild, hway', hscope'⟩ := Node.places_parent ho
  · cases hscope
  · obtain ⟨rfl, rfl⟩ : i = place ∧ p.way = way := by simpa [hway'] using hway
    obtain ⟨rfl, rfl⟩ : p.node = parent ∧ p.scope = outer := by simpa [hscope'] using hscope
    obtain ⟨hlt, hsame, -⟩ := List.findIdx?_eq_some_iff_getElem.mp hj
    cases hc : p.node.children[j] with
    | absent | name | literal => simp [hc, Child.isSame] at hsame
    | node m =>
      have hm := Node.places_step hp (i := j) (c := m) (by rw [List.getElem?_eq_getElem hlt, hc])
      rw [hc, Child.isSame, beq_iff_eq] at hsame
      have heq := List.inj_on_of_nodup_map hnodup hm ho hsame
      have hways := congrArg Occurrence.way heq
      rw [hway'] at hways
      exact (List.cons.inj hways).1

/-- The visibility of a listed method: public at the root, and else what a forward pass over its
block reaches at the first occurrence of the method there. Where no node stands at two places of
the tree, that is the method's own place, and only the visibility statements before it count. -/
theorem visibility_eq_forward_pass (path : String) (root : Node) (i : Nat) (o : Occurrence)
    (holders : List Nat) (m : Method) (ho : root.declarations[i]? = some o)
    (hm : (Feature.listing (extract path (.node root)).features)[i]? =
      some ⟨holders, .method m⟩) :
    (o.scope = [] → m.visibility = .pub) ∧
    ∀ (parent : Node) (outer : Scope), o.scope = parent :: outer →
      ∃ (place j : Nat) (way : List Nat), o.way = place :: way ∧
        parent.children[place]? = some (.node o.node) ∧
        j ≤ place ∧ parent.children.findIdx? (Child.isSame o.node) = some j ∧
        m.visibility = (parent.children.take j).foldl Visibility.after .pub ∧
        ((root.places.map (·.node.identity)).Nodup →
          (parent.children.scanl Visibility.after .pub)[place]? = some m.visibility ∧
          ∀ others : List Child,
            (others.take place).map Child.switch? =
              (parent.children.take place).map Child.switch? →
            (others.take place).foldl Visibility.after .pub = m.visibility) := by
  obtain ⟨o', ho', hshows⟩ := Extraction.exists_declaration hm
  obtain rfl : o = o' := by simpa [ho] using ho'
  have hplace : o ∈ root.places :=
    (List.mem_filter.mp (List.mem_filter.mp (List.mem_of_getElem? ho)).1).1
  have hvisibility := (Node.method_ok (Node.method_of_heading hshows.heading).2).2.2.2.2
  constructor
  · intro hroot
    rw [hvisibility, hroot]
    rfl
  · intro parent outer hscope
    obtain rfl | ⟨place, p, hp, hchild, hway, hscope'⟩ := Node.places_parent hplace
    · cases hscope
    · obtain ⟨rfl, rfl⟩ : p.node = parent ∧ p.scope = outer := by simpa [hscope'] using hscope
      obtain ⟨j, hle, hj⟩ := exists_first_occurrence hchild
      rw [hscope, Node.visibilityIn_eq _ _ _ hj] at hvisibility
      refine ⟨place, j, p.way, hway, hchild, hle, hj, hvisibility, fun hnodup => ?_⟩
      obtain rfl := Node.first_occurrence_eq hnodup hplace hscope hway hj
      obtain ⟨hlt, -⟩ := List.getElem?_eq_some_iff.mp hchild
      constructor
      · rw [List.getElem?_scanl, if_pos (Nat.le_of_lt hlt), hvisibility]
      · intro others hothers
        rw [hvisibility, foldl_after_eq, hothers, ← foldl_after_eq]

/-- A block in which the same method stands before and after the word `private`. -/
def repeatedMethod : Node :=
  let method : Child := .node ⟨[1], .methodDef, [.name "run", .absent, .absent], 1, 0⟩
  ⟨[0], .group, [method, .node ⟨[2], .call, [.absent, .name "private"], 2, 0⟩, method], 1, 0⟩

theorem visibility_eq_forward_pass_repeatedMethod :
    let o : Occurrence :=
      ⟨[2], [repeatedMethod], ⟨[1], .methodDef, [.name "run", .absent, .absent], 1, 0⟩⟩
    repeatedMethod.declarations[1]? = some o ∧
    (Feature.listing (extract "a.rb" (.node repeatedMethod)).features)[1]? =
      some ⟨[], .method ⟨"run", "a.rb:1", "", false, .pub⟩⟩ ∧
    ∃ (place j : Nat) (way : List Nat), o.way = place :: way ∧ j ≤ place ∧
      repeatedMethod.children.findIdx? (Child.isSame o.node) = some j ∧
      .pub = (repeatedMethod.children.take j).foldl Visibility.after .pub := by
  refine ⟨rfl, by decide, ?_⟩
  obtain ⟨place, j, way, hway, -, hle, hj, hvisibility, -⟩ :=
    (visibility_eq_forward_pass "a.rb" repeatedMethod 1
      ⟨[2], [repeatedMethod], ⟨[1], .methodDef, [.name "run", .absent, .absent], 1, 0⟩⟩ []
      ⟨"run", "a.rb:1", "", false, .pub⟩ rfl (by decide)).2 repeatedMethod [] rfl
  exact ⟨place, j, way, hway, hle, hj, hvisibility⟩

end RubyOutline
