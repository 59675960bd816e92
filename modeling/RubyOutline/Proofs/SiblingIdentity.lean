import RubyOutline.Proofs.Block

namespace RubyOutline

/-- The children are not the same node. -/
def Child.Apart (c d : Child) : Prop :=
  ∀ a b : Node, c = .node a → d = .node b → a.identity ≠ b.identity

theorem Child.Apart.symm {c d : Child} (h : c.Apart d) : d.Apart c :=
  fun a b ha hb heq => h b a hb ha heq.symm

theorem Child.Apart.of_node? {c d : Child} (h : c.node? = none ∨ d.node? = none) : c.Apart d := by
  rintro a b rfl rfl
  simp [Child.node?] at h

theorem Child.node?_ofName? (found : Option String) : (Child.ofName? found).node? = none := by
  cases found <;> rfl

/-- No child but the one in its place is a given node. -/
theorem Child.map_isSame {children : List Child} (h : children.Pairwise Child.Apart) {i : Nat}
    {m : Node} (hm : children[i]? = some (.node m)) :
    children.map (Child.isSame m) = (List.range children.length).map (· == i) := by
  refine List.ext_getElem (by simp) fun j hj _ => ?_
  obtain ⟨hi, hget⟩ := List.getElem?_eq_some_iff.mp hm
  rw [List.length_map] at hj
  rw [List.getElem_map, List.getElem_map, List.getElem_range]
  by_cases hji : j = i
  · subst hji
    rw [hget, Child.isSame, beq_self_eq_true, beq_self_eq_true]
  · rw [beq_eq_false_iff_ne.mpr hji]
    cases hc : children[j] with
    | absent | name | literal => rfl
    | node a =>
      rw [Child.isSame, beq_eq_false_iff_ne]
      rcases Nat.lt_or_gt_of_ne hji with hlt | hgt
      · exact List.pairwise_iff_getElem.mp h j i hj hi hlt a m hc hget
      · exact (List.pairwise_iff_getElem.mp h i j hi hj hgt m a hget hc).symm

namespace ParseTree

variable {source : List UInt8} {statement : Bool} {identity : Identity} {t : ParseTree}

/-- The identity of what fills a field tells the field. -/
theorem identity_of_lowerIn {name : String} {n : Node}
    (h : t.lowerIn source name statement identity = some n) :
    ∃ (i : Nat) (c : ParseTree), n.identity = i :: identity ∧ t.children[i]? = some c ∧
      c.field = some name := by
  obtain ⟨⟨c, i⟩, hfield, hn⟩ := Option.bind_eq_some_iff.mp h
  have hfills := List.find?_some hfield
  refine ⟨i, c, lower_identity hn, getElem?_of_fieldAt? hfield, ?_⟩
  simpa [fills] using hfills

theorem identity_of_body? {n : Node} (h : t.body? source identity = some n) :
    ∃ i : Nat, n.identity = i :: identity ∧
      ∀ c, t.children[i]? = some c → c.field = some "body" := by
  rw [body?] at h
  split at h
  · obtain ⟨i, c, hn, hc, hfield⟩ := identity_of_lowerIn h
    refine ⟨i, hn, fun d hd => ?_⟩
    rw [hc] at hd
    cases hd
    exact hfield
  · -- the group stands after all children
    obtain ⟨first, -, rfl⟩ := Option.map_eq_some_iff.mp h
    refine ⟨t.children.length, rfl, fun c hc => ?_⟩
    rw [List.getElem?_eq_none (Nat.le_refl _)] at hc
    cases hc

/-- What fills a field is not what stands where no child fills that field. -/
theorem apart_field {name : String} {d : Child}
    (h : ∀ b : Node, d = .node b → ∃ j : Nat, b.identity = j :: identity ∧
      ∀ c, t.children[j]? = some c → c.field ≠ some name) :
    Child.Apart (.ofNode? (t.lowerIn source name statement identity)) d := by
  intro a b ha hb heq
  obtain ⟨i, c, hi, hc, hfield⟩ := identity_of_lowerIn (Child.node_eq_ofNode?.mp ha.symm)
  obtain ⟨j, hj, hother⟩ := h b hb
  rw [hi, hj, List.cons.injEq] at heq
  rw [heq.1] at hc
  exact hother c hc hfield

theorem apart_fields {name name' : String} (hne : name ≠ name') :
    Child.Apart (.ofNode? (t.lowerIn source name statement identity))
      (.ofNode? (t.lowerIn source name' statement identity)) := by
  refine apart_field fun b hb => ?_
  obtain ⟨j, d, hj, hd, hfield⟩ := identity_of_lowerIn (Child.node_eq_ofNode?.mp hb.symm)
  refine ⟨j, hj, fun c hc => ?_⟩
  rw [hd] at hc
  cases hc
  simpa [hfield] using hne.symm

theorem apart_body {name : String} (hne : name ≠ "body") :
    Child.Apart (.ofNode? (t.lowerIn source name statement identity))
      (.ofNode? (t.body? source identity)) := by
  refine apart_field fun b hb => ?_
  obtain ⟨j, hj, hbody⟩ := identity_of_body? (Child.node_eq_ofNode?.mp hb.symm)
  refine ⟨j, hj, fun c hc => ?_⟩
  simpa [hbody c hc] using hne.symm

theorem pairwise_apart_lowerWhere (keep : ParseTree → Bool) (index : Nat)
    (trees : List ParseTree) :
    (lowerWhere source keep statement identity index trees).Pairwise Child.Apart := by
  induction trees generalizing index with
  | nil => exact .nil
  | cons t rest ih =>
    rw [lowerWhere, List.pairwise_append]
    refine ⟨?_, ih (index + 1), ?_⟩
    · cases keep t <;> cases lower source statement (index :: identity) t <;> simp
    · intro c hc d hd a b ha hb
      obtain ⟨i, u, m, -, -, hm, rfl⟩ := mem_lowerWhere.mp hd
      cases hb
      have hfirst : a.identity = index :: identity := by
        cases hkeep : keep t with
        | false => simp [hkeep] at hc
        | true =>
          simp only [hkeep, if_true, List.mem_map, Option.mem_toList] at hc
          obtain ⟨n, hn, rfl⟩ := hc
          cases ha
          exact lower_identity hn
      rw [hfirst, lower_identity hm]
      simp
      omega

/-- The arguments are one level deeper than what fills a field. -/
theorem length_identity_of_argumentsIn {n : Node} (h : .node n ∈ t.argumentsIn source identity) :
    n.identity.length = identity.length + 2 := by
  rw [argumentsIn] at h
  cases hfield : t.fieldAt? "arguments" with
  | none => simp [hfield] at h
  | some found =>
    rw [hfield] at h
    obtain ⟨i, c, m, -, -, hm, heq⟩ := mem_lowerWhere.mp h
    cases heq
    rw [lower_identity hm]
    rfl

theorem apart_arguments {name : String} {c : Child} (hc : c ∈ t.argumentsIn source identity) :
    Child.Apart c (.ofNode? (t.lowerIn source name statement identity)) := by
  intro a b ha hb heq
  subst ha
  obtain ⟨i, -, hi, -⟩ := identity_of_lowerIn (Child.node_eq_ofNode?.mp hb.symm)
  have hlength := length_identity_of_argumentsIn hc
  rw [heq, hi, List.length_cons] at hlength
  omega

/-- No two children of a lowered parse tree are the same node. -/
theorem pairwise_apart_form {kind : Kind} {places : List Child}
    (h : t.form source statement identity = some (kind, places)) :
    places.Pairwise Child.Apart := by
  have hword {c : Child} (found : Option String) : Child.Apart c (.ofName? found) :=
    .of_node? (.inr (Child.node?_ofName? found))
  have hword' {c : Child} (found : Option String) : Child.Apart (.ofName? found) c :=
    .of_node? (.inl (Child.node?_ofName? found))
  have hname {c : Child} (text : String) : Child.Apart c (.name text) :=
    .of_node? (.inr rfl)
  have hname' {c : Child} (text : String) : Child.Apart (.name text) c :=
    .of_node? (.inl rfl)
  rw [form] at h
  cases htype : Form.ofType t.type with
  | comment => simp [htype] at h
  | classDef | moduleDef | singletonClass | methodDef | singletonDef | scopedConstant | constant
  | selfRef =>
    rw [htype] at h
    cases h
    simp [apart_fields, apart_body, hword, hword', hname]
  | call =>
    rw [htype] at h
    cases h
    have hblock {c : Child} (hc : c ∈ (t.lowerIn source "block" false identity).toList.map .node) :
        c = .ofNode? (t.lowerIn source "block" false identity) := by
      cases hfound : t.lowerIn source "block" false identity <;> simp_all [Child.ofNode?]
    refine .cons (fun c hc => ?_) (.cons (fun c _ => hname' _) ?_)
    · rw [List.mem_cons, List.mem_append] at hc
      rcases hc with rfl | harguments | hc
      · exact hname _
      · exact (apart_arguments harguments).symm
      · rw [hblock hc]
        exact apart_fields (by simp)
    · refine List.pairwise_append.mpr ⟨?_, ?_, fun c hc d hd => ?_⟩
      · rw [argumentsIn]
        cases t.fieldAt? "arguments" with
        | none => exact .nil
        | some found => exact pairwise_apart_lowerWhere _ 0 _
      · cases t.lowerIn source "block" false identity <;> simp
      · rw [hblock hd]
        exact apart_arguments hc
  | identifier =>
    rw [htype] at h
    cases statement with
    | true =>
      cases h
      simp [hname]
    | false =>
      cases h
      exact pairwise_apart_lowerWhere _ 0 t.children
  | plain =>
    rw [htype] at h
    cases h
    exact pairwise_apart_lowerWhere _ 0 t.children

end ParseTree

end RubyOutline
