import Mathlib.Data.List.Nodup
import RubyOutline.Declaration.Name

namespace RubyOutline

theorem Node.sizeOf_lt_of_mem {n c : Node} (h : .node c ∈ n.children) : sizeOf c < sizeOf n := by
  obtain ⟨identity, kind, children, line, column⟩ := n
  have hlist := List.sizeOf_lt_of_mem h
  simp only [Child.node.sizeOf_spec] at hlist
  simp only [Node.mk.sizeOf_spec]
  omega

/-- What holds of a node when it holds of all its child nodes holds of every node. -/
theorem Node.childInduction {P : Node → Prop}
    (step : ∀ n : Node, (∀ c : Node, .node c ∈ n.children → P c) → P n) (n : Node) : P n :=
  step n fun c _ => Node.childInduction step c
termination_by sizeOf n
decreasing_by exact Node.sizeOf_lt_of_mem ‹_›

/-- Lists of children one by one, where only the nodes among them count. -/
theorem Child.listInduction {P : List Child → Prop} (nil : P [])
    (node : ∀ n rest, P rest → P (.node n :: rest))
    (skip : ∀ c rest, c.node? = none → P rest → P (c :: rest)) (children : List Child) :
    P children := by
  induction children with
  | nil => exact nil
  | cons c rest ih =>
    cases c with
    | node n => exact node n rest ih
    | absent | name | literal => exact skip _ rest rfl ih

/-- A place of a tree: the way to it from the root, innermost step first, the nodes around it and
the node that stands there. -/
structure Occurrence where
  way : List Nat
  scope : Scope
  node : Node

mutual

def Node.occurrences (way : List Nat) (scope : Scope) : Node → List Occurrence
  | n@⟨_, _, children, _, _⟩ => ⟨way, scope, n⟩ :: Node.occurrencesAll way 0 (n :: scope) children

/-- The places inside the children of a node; `index` is the place of the first child. -/
def Node.occurrencesAll (way : List Nat) (index : Nat) (scope : Scope) :
    List Child → List Occurrence
  | [] => []
  | .node n :: rest =>
    n.occurrences (index :: way) scope ++ Node.occurrencesAll way (index + 1) scope rest
  | _ :: rest => Node.occurrencesAll way (index + 1) scope rest

end

/-- All places of a tree in pre-order. -/
def Node.places (root : Node) : List Occurrence := root.occurrences [] []

namespace Node

theorem occurrences_eq (way : List Nat) (scope : Scope) (n : Node) :
    n.occurrences way scope = ⟨way, scope, n⟩ :: occurrencesAll way 0 (n :: scope) n.children := by
  obtain ⟨identity, kind, children, line, column⟩ := n
  rw [occurrences]

theorem occurrencesAll_skip (way : List Nat) (index : Nat) (scope : Scope) {c : Child}
    (h : c.node? = none) (rest : List Child) :
    occurrencesAll way index scope (c :: rest) = occurrencesAll way (index + 1) scope rest := by
  cases c with
  | node n => simp [Child.node?] at h
  | absent | name | literal => simp only [occurrencesAll]

theorem mem_occurrencesAll {way : List Nat} {index : Nat} {scope : Scope} {children : List Child}
    {o : Occurrence} : o ∈ occurrencesAll way index scope children ↔
      ∃ (i : Nat) (c : Node), children[i]? = some (.node c) ∧
        o ∈ c.occurrences ((index + i) :: way) scope := by
  induction children using Child.listInduction generalizing index with
  | nil => simp [occurrencesAll]
  | node n rest ih =>
    rw [occurrencesAll, List.mem_append, ih]
    constructor
    · rintro (h | ⟨i, c, hc, ho⟩)
      · exact ⟨0, n, rfl, h⟩
      · exact ⟨i + 1, c, hc, by rwa [← Nat.add_assoc, Nat.add_right_comm]⟩
    · rintro ⟨_ | i, c, hc, ho⟩
      · obtain rfl : n = c := by simpa using hc
        exact .inl ho
      · exact .inr ⟨i, c, hc, by rwa [Nat.add_right_comm, Nat.add_assoc]⟩
  | skip child rest h ih =>
    rw [occurrencesAll_skip way index scope h, ih]
    constructor
    · rintro ⟨i, c, hc, ho⟩
      exact ⟨i + 1, c, hc, by rwa [← Nat.add_assoc, Nat.add_right_comm]⟩
    · rintro ⟨_ | i, c, hc, ho⟩
      · obtain rfl : child = .node c := by simpa using hc
        simp [Child.node?] at h
      · exact ⟨i, c, hc, by rwa [Nat.add_right_comm, Nat.add_assoc]⟩

theorem mem_occurrences {way : List Nat} {scope : Scope} {n : Node} {o : Occurrence} :
    o ∈ n.occurrences way scope ↔ o = ⟨way, scope, n⟩ ∨
      ∃ (i : Nat) (c : Node), n.children[i]? = some (.node c) ∧
        o ∈ c.occurrences (i :: way) (n :: scope) := by
  rw [occurrences_eq, List.mem_cons, mem_occurrencesAll]
  simp only [Nat.zero_add]

/-- From a place to the places of its child nodes. -/
theorem places_step {way : List Nat} {scope : Scope} {n : Node} {parent : Occurrence}
    (h : parent ∈ n.occurrences way scope) {i : Nat} {c : Node}
    (hc : parent.node.children[i]? = some (.node c)) :
    ⟨i :: parent.way, parent.node :: parent.scope, c⟩ ∈ n.occurrences way scope := by
  induction n using Node.childInduction generalizing way scope with
  | step n ih =>
    rw [mem_occurrences] at h ⊢
    rcases h with rfl | ⟨j, d, hd, hp⟩
    · exact .inr ⟨i, c, hc, mem_occurrences.mpr (.inl rfl)⟩
    · exact .inr ⟨j, d, hd, ih d (List.mem_of_getElem? hd) hp⟩

theorem places_of_mem {root c : Node} {o : Occurrence} (ho : o ∈ root.places)
    (hc : .node c ∈ o.node.children) :
    ∃ i, ⟨i :: o.way, o.node :: o.scope, c⟩ ∈ root.places := by
  obtain ⟨i, hi⟩ := List.getElem?_of_mem hc
  exact ⟨i, places_step ho hi⟩

/-- What holds of the outermost place, and goes over from a place to those of its child nodes,
holds of every place. -/
theorem occurrences_induction {P : Occurrence → Prop} {way : List Nat} {scope : Scope} {n : Node}
    (self : P ⟨way, scope, n⟩)
    (step : ∀ parent ∈ n.occurrences way scope, P parent → ∀ (i : Nat) (c : Node),
      parent.node.children[i]? = some (.node c) → P ⟨i :: parent.way, parent.node :: parent.scope, c⟩)
    (o : Occurrence) (h : o ∈ n.occurrences way scope) : P o := by
  induction n using Node.childInduction generalizing way scope with
  | step n ih =>
    rcases mem_occurrences.mp h with rfl | ⟨i, c, hc, ho⟩
    · exact self
    · have hself := step _ (mem_occurrences.mpr (.inl rfl)) self i c hc
      refine ih c (List.mem_of_getElem? hc) hself (fun parent hp => ?_) ho
      exact step parent (mem_occurrences.mpr (.inr ⟨i, c, hc, hp⟩))

theorem suffix_of_mem_occurrences {way : List Nat} {scope : Scope} {n : Node} {o : Occurrence}
    (h : o ∈ n.occurrences way scope) : way <:+ o.way ∧ scope <:+ o.scope := by
  refine occurrences_induction (P := fun o => way <:+ o.way ∧ scope <:+ o.scope)
    ⟨List.suffix_rfl, List.suffix_rfl⟩ (fun parent _ hp i c _ => ?_) o h
  exact ⟨hp.1.trans (List.suffix_cons _ _), hp.2.trans (List.suffix_cons _ _)⟩

theorem places_length {root : Node} {o : Occurrence} (h : o ∈ root.places) :
    o.way.length = o.scope.length := by
  refine occurrences_induction (P := fun o => o.way.length = o.scope.length) rfl
    (fun parent _ hp i c _ => ?_) o h
  simp [hp]

/-- A place other than the root stands among the children of the place around it. -/
theorem places_parent {root : Node} {o : Occurrence} (h : o ∈ root.places) :
    o = ⟨[], [], root⟩ ∨ ∃ (i : Nat) (parent : Occurrence), parent ∈ root.places ∧
      parent.node.children[i]? = some (.node o.node) ∧
        o.way = i :: parent.way ∧ o.scope = parent.node :: parent.scope := by
  refine occurrences_induction (P := fun o => o = ⟨[], [], root⟩ ∨
    ∃ (i : Nat) (parent : Occurrence), parent ∈ root.places ∧
      parent.node.children[i]? = some (.node o.node) ∧
        o.way = i :: parent.way ∧ o.scope = parent.node :: parent.scope)
    (.inl rfl) (fun parent hp _ i c hc => ?_) o h
  exact .inr ⟨i, parent, hp, hc, rfl, rfl⟩

private theorem occurrencesAll_way_nodup (way : List Nat) (index : Nat) (scope : Scope)
    (children : List Child)
    (h : ∀ c : Node, .node c ∈ children → ∀ (way : List Nat) (scope : Scope),
      ((c.occurrences way scope).map Occurrence.way).Nodup) :
    ((occurrencesAll way index scope children).map Occurrence.way).Nodup := by
  induction children using Child.listInduction generalizing index with
  | nil => simp [occurrencesAll]
  | node c rest ih =>
    rw [occurrencesAll, List.map_append, List.nodup_append]
    refine ⟨h c (by simp) _ _, ih _ fun d hd => h d (List.mem_cons_of_mem _ hd), ?_⟩
    -- a way inside `c` ends with the step to `c`, a later one with the step to a later child
    intro w hw w' hw' heq
    obtain ⟨o, ho, rfl⟩ := List.mem_map.mp hw
    obtain ⟨o', ho', rfl⟩ := List.mem_map.mp hw'
    obtain ⟨i, d, -, ho'⟩ := mem_occurrencesAll.mp ho'
    have h1 := (suffix_of_mem_occurrences ho).1
    have h2 := (suffix_of_mem_occurrences ho').1
    rw [← heq] at h2
    have he := (List.suffix_of_suffix_length_le h1 h2 (by simp)).eq_of_length (by simp)
    simp only [List.cons.injEq, and_true] at he
    omega
  | skip c rest hc ih =>
    rw [occurrencesAll_skip _ _ _ hc]
    exact ih _ fun d hd => h d (List.mem_cons_of_mem _ hd)

/-- Ways tell places apart: no two places of a tree share one. -/
theorem occurrences_way_nodup (way : List Nat) (scope : Scope) (n : Node) :
    ((n.occurrences way scope).map Occurrence.way).Nodup := by
  induction n using Node.childInduction generalizing way scope with
  | step n ih =>
    rw [occurrences_eq, List.map_cons, List.nodup_cons]
    refine ⟨fun hmem => ?_, occurrencesAll_way_nodup way 0 _ n.children ih⟩
    obtain ⟨o, ho, (heq : o.way = way)⟩ := List.mem_map.mp hmem
    obtain ⟨i, c, -, ho⟩ := mem_occurrencesAll.mp ho
    have hlen := (suffix_of_mem_occurrences ho).1.length_le
    rw [heq, List.length_cons] at hlen
    omega

end Node

/-- The places around a place, outermost first. -/
def Occurrence.aroundIn : List Nat → Scope → List Occurrence
  | _ :: way, n :: scope => aroundIn way scope ++ [⟨way, scope, n⟩]
  | _, _ => []

def Occurrence.around (o : Occurrence) : List Occurrence := aroundIn o.way o.scope

/-- The classes and modules around a place, outermost first. -/
def Occurrence.types (o : Occurrence) : List Occurrence :=
  o.around.filter (·.node.kind.isType)

theorem Node.mem_places_of_mem_around {root : Node} {o a : Occurrence} (h : o ∈ root.places)
    (ha : a ∈ o.around) : a ∈ root.places := by
  refine occurrences_induction (P := fun o => ∀ a ∈ o.around, a ∈ root.places)
    (by simp [Occurrence.around, Occurrence.aroundIn]) (fun parent hp ih i c _ => ?_) o h a ha
  intro a ha
  rcases List.mem_append.mp ha with ha | ha
  · exact ih a ha
  · obtain rfl := List.mem_singleton.mp ha
    exact hp

theorem Occurrence.around_scope_suffix {way : List Nat} {scope : Scope} {a : Occurrence}
    (ha : a ∈ aroundIn way scope) : a.node :: a.scope <:+ scope := by
  fun_induction aroundIn way scope with
  | case1 i way n scope ih =>
    rcases List.mem_append.mp ha with ha | ha
    · exact (ih ha).trans (List.suffix_cons _ _)
    · obtain rfl := List.mem_singleton.mp ha
      exact List.suffix_rfl
  | case2 => simp at ha

end RubyOutline
