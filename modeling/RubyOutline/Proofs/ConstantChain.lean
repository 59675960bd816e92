import RubyOutline.Proofs.Declaration

namespace RubyOutline.Node

/-- A place holds a name, or the fault is that of the node which should have one there. -/
theorem nameAt_cases (n : Node) (position : Nat) :
    (∃ text, n.nameAt position = .ok text ∧ n.children[position]? = some (.name text) ∧
      text ≠ "") ∨
    n.nameAt position = .error (.missingChild n position) ∨
    n.nameAt position = .error (.missingName n position) := by
  unfold nameAt childAt
  cases hc : n.children[position]? with
  | none => exact .inr (.inl rfl)
  | some child =>
    cases child with
    | absent | node | literal => exact .inr (.inr rfl)
    | name text =>
      by_cases hempty : text = ""
      · subst hempty
        exact .inr (.inr rfl)
      · refine .inl ⟨text, ?_, rfl, hempty⟩
        simp [bind, Except.bind, hempty]

/-- One link of a chain: its name comes before the constant in front of it. -/
theorem segmentsWithin_eq (links : Nat) (n : Node) :
    n.segmentsWithin (links + 1) =
      if n.kind = .constant then
        match n.nameAt 1 with
        | .error fault => .error fault
        | .ok name =>
          match n.constantScope? with
          | some scope => (scope.segmentsWithin links).map (· ++ [name])
          | none => .ok [name]
      else .error (.notConstant (some n)) := by
  rw [segmentsWithin]
  split_ifs with hkind
  · cases n.nameAt 1 with
    | error fault => rfl
    | ok name =>
      cases n.constantScope? with
      | none => rfl
      | some scope =>
        simp only [bind, Except.bind]
        cases scope.segmentsWithin links <;> rfl
  · rfl

/-- No segment that is read is empty. -/
theorem segmentsWithin_names {links : Nat} {n : Node} {segments : List String}
    (h : n.segmentsWithin links = .ok segments) : "" ∉ segments := by
  induction links generalizing n segments with
  | zero => cases h
  | succ links ih =>
    rw [segmentsWithin_eq] at h
    split_ifs at h with hkind
    obtain ⟨name, hname, -, hne⟩ | hname | hname := n.nameAt_cases 1
    · rw [hname] at h
      cases hscope : n.constantScope? with
      | none =>
        rw [hscope] at h
        cases h
        simpa using Ne.symm hne
      | some scope =>
        rw [hscope] at h
        cases hrest : scope.segmentsWithin links with
        | error fault =>
          simp only [hrest] at h
          cases h
        | ok outer =>
          simp only [hrest] at h
          cases h
          simp [ih hrest, Ne.symm hne]
    · rw [hname] at h
      cases h
    · rw [hname] at h
      cases h

theorem typeSegments_names {n : Node} {segments : List String} (h : n.typeSegments = .ok segments) :
    "" ∉ segments := by
  obtain ⟨name, -, hname⟩ | ⟨fault, hfault, -⟩ := n.typeSegments_cases
  · rw [hname] at h
    exact segmentsWithin_names h
  · rw [hfault] at h
    cases h

/-- The constants of a chain, from the one at its end on. -/
inductive OnChain : Node → Node → Prop
  | last {n : Node} : n.kind = .constant → OnChain n n
  | before {n scope link : Node} :
    n.kind = .constant → n.constantScope? = some scope → OnChain scope link → OnChain n link

theorem kind_of_constantScope? {n scope : Node} (h : n.constantScope? = some scope) :
    scope.kind = .constant := by
  unfold constantScope? at h
  split at h
  · split_ifs at h with hkind
    cases h
    exact hkind
  · cases h

/-- A chain that is not read to its end is too long, or one of its constants has no name. -/
theorem segmentsWithin_fault {links : Nat} {n : Node} {fault : Fault} (hkind : n.kind = .constant)
    (h : n.segmentsWithin links = .error fault) :
    fault = .chainTooLong ∨
      ∃ link, OnChain n link ∧ (fault = .missingChild link 1 ∨ fault = .missingName link 1) := by
  induction links generalizing n with
  | zero =>
    cases h
    exact .inl rfl
  | succ links ih =>
    rw [segmentsWithin_eq, if_pos hkind] at h
    obtain ⟨name, hname, -, -⟩ | hname | hname := n.nameAt_cases 1
    · rw [hname] at h
      cases hscope : n.constantScope? with
      | none =>
        rw [hscope] at h
        cases h
      | some scope =>
        rw [hscope] at h
        cases hrest : scope.segmentsWithin links with
        | ok outer =>
          simp only [hrest] at h
          cases h
        | error found =>
          simp only [hrest] at h
          cases h
          refine (ih (kind_of_constantScope? hscope) hrest).imp_right ?_
          rintro ⟨link, hlink, hfault⟩
          exact ⟨link, .before hkind hscope hlink, hfault⟩
    · rw [hname] at h
      cases h
      exact .inr ⟨n, .last hkind, .inl rfl⟩
    · rw [hname] at h
      cases h
      exact .inr ⟨n, .last hkind, .inr rfl⟩

/-- Every constant of a chain stands somewhere in the tree that the chain is in. -/
theorem OnChain.exists_place {root n link : Node} (h : OnChain n link) {o : Occurrence}
    (ho : o ∈ root.places) (hn : o.node = n) : ∃ a ∈ root.places, a.node = link := by
  induction h generalizing o with
  | last _ => exact ⟨o, ho, hn⟩
  | before _ hscope _ ih =>
    subst hn
    exact ih (places_step ho (constantScope?_eq_some hscope)) rfl

end RubyOutline.Node
