import RubyOutline.Proofs.ConstantChain
import RubyOutline.Proofs.Layout

namespace RubyOutline.Node

/-- Where a fault of a method is found: at the method itself, or at a constant of the chain that it
is declared on. -/
def Blames (n blamed : Node) : Prop :=
  blamed = n ∨ ∃ receiver : Node, n.children[0]? = some (.node receiver) ∧ receiver.OnChain blamed

theorem nameAt_fault {n : Node} {position : Nat} {fault : Fault}
    (h : n.nameAt position = .error fault) : fault.kind = .malformed ∧ fault.node? = some n := by
  obtain ⟨text, hname, -⟩ | hname | hname := n.nameAt_cases position <;> rw [hname] at h <;> cases h
  · exact ⟨rfl, rfl⟩
  · exact ⟨rfl, rfl⟩

theorem methodName_fault {n : Node} {fault : Fault} (h : n.methodName = .error fault) :
    fault.kind = .malformed ∧ fault.node? = some n := by
  rw [methodName] at h
  split_ifs at h <;> exact nameAt_fault h

/-- A chain of constants that is not read to its end is too long or blames one of its constants. -/
theorem segmentsWithin_blames {links : Nat} {n : Node} {fault : Fault} (hkind : n.kind = .constant)
    (h : n.segmentsWithin links = .error fault) :
    fault = .chainTooLong ∨
      ∃ link, n.OnChain link ∧ fault.kind = .malformed ∧ fault.node? = some link := by
  refine (segmentsWithin_fault hkind h).imp_right ?_
  rintro ⟨link, hlink, rfl | rfl⟩
  · exact ⟨link, hlink, rfl, rfl⟩
  · exact ⟨link, hlink, rfl, rfl⟩

theorem receiverName_fault {n : Node} {fault : Fault} (h : n.receiverName = .error fault) :
    (∃ receiver, fault = .unsupportedReceiver n receiver) ∨ fault = .chainTooLong ∨
      ∃ blamed, n.Blames blamed ∧ fault.kind = .malformed ∧ fault.node? = some blamed := by
  unfold receiverName childAt at h
  cases hfirst : n.children[0]? with
  | none =>
    rw [hfirst] at h
    cases h
    exact .inr (.inr ⟨n, .inl rfl, rfl, rfl⟩)
  | some child =>
    rw [hfirst] at h
    cases child with
    | absent | name | literal =>
      cases h
      exact .inl ⟨_, rfl⟩
    | node receiver =>
      simp only [bind, Except.bind] at h
      split_ifs at h with hself hconstant
      · cases h
      · cases hsegments : receiver.constantSegments with
        | ok segments =>
          rw [hsegments] at h
          cases h
        | error found =>
          rw [hsegments] at h
          cases h
          refine .inr ((segmentsWithin_blames hconstant hsegments).imp_right ?_)
          rintro ⟨link, hlink, hfault⟩
          exact ⟨link, .inr ⟨receiver, hfirst, hlink⟩, hfault⟩
      · cases h
        exact .inl ⟨_, rfl⟩

/-- The faults of a method, where every class and module around it can be named. -/
theorem method_fault {path : String} {scope : Scope} {n : Node} {fault : Fault}
    (hresolved : scope.Resolved) (h : n.method path scope = .error fault) :
    (∃ receiver, fault = .unsupportedReceiver n receiver) ∨ fault = .chainTooLong ∨
      ∃ blamed, n.Blames blamed ∧ fault.kind = .malformed ∧ fault.node? = some blamed := by
  obtain ⟨groups, -, hsegments⟩ := hresolved.segments
  rw [method_eq hsegments] at h
  cases hname : n.methodName with
  | error found =>
    rw [hname] at h
    cases h
    exact .inr (.inr ⟨n, .inl rfl, methodName_fault hname⟩)
  | ok name =>
    rw [hname, ownerSegments] at h
    split_ifs at h
    · cases hreceiver : n.receiverName with
      | ok found =>
        rw [hreceiver] at h
        cases h
      | error found =>
        rw [hreceiver] at h
        cases h
        exact receiverName_fault hreceiver
    · cases h

/-- The fault of a method is that of its declaration. -/
theorem declared_of_method {path : String} {scope : Scope} {n : Node} {fault : Fault}
    (hresolved : scope.Resolved) (hrole : n.kind.role ∈ [.instanceMethod, .staticMethod])
    (h : n.method path scope = .error fault) : n.declared = .error fault := by
  obtain ⟨groups, -, hsegments⟩ := hresolved.segments
  have hheading : n.heading path scope = .error fault := by
    rw [heading]
    rcases List.mem_pair.mp hrole with hrole | hrole <;> rw [hrole, h] <;> rfl
  rw [← heading_name hsegments path n, hheading]
  rfl

theorem typeSegments_fault {n : Node} {fault : Fault} (h : n.typeSegments = .error fault) :
    fault = .chainTooLong ∨ fault.node? = some n ∨
      ∃ name : Node, n.children[0]? = some (.node name) ∧
        (fault.node? = some name ∨ ∃ link, name.OnChain link ∧ fault.node? = some link) := by
  unfold typeSegments childAt at h
  cases hfirst : n.children[0]? with
  | none =>
    rw [hfirst] at h
    cases h
    exact .inr (.inl rfl)
  | some child =>
    rw [hfirst] at h
    cases child with
    | absent | name | literal =>
      cases h
      exact .inr (.inl rfl)
    | node name =>
      replace h : name.segmentsWithin maxLinks = .error fault := h
      by_cases hkind : name.kind = .constant
      · refine (segmentsWithin_blames hkind h).imp_right ?_
        rintro ⟨link, hlink, -, hnode⟩
        exact .inr ⟨name, rfl, .inr ⟨link, hlink, hnode⟩⟩
      · rw [maxLinks, segmentsWithin_eq, if_neg hkind] at h
        cases h
        exact .inr (.inr ⟨name, rfl, .inl rfl⟩)

theorem Blames.exists_place {root blamed : Node} {o : Occurrence} (ho : o ∈ root.places)
    (h : o.node.Blames blamed) : ∃ a ∈ root.places, a.node = blamed := by
  obtain rfl | ⟨receiver, hfirst, hlink⟩ := h
  · exact ⟨o, ho, rfl⟩
  · exact hlink.exists_place (places_step ho hfirst) rfl

/-- A fault that does not cost the file is found at a node of the tree. -/
theorem exists_place_of_fault {root : Node} {o : Occurrence} {fault : Fault}
    (ho : o ∈ root.places) (h : o.declared = .error fault) (hreach : fault.reach ≠ .file) :
    ∃ a ∈ root.places, fault.node? = some a.node := by
  have hlimit : fault ≠ .chainTooLong := by
    rintro rfl
    exact hreach rfl
  rw [Occurrence.declared] at h
  split_ifs at h
  · cases h
    exact ⟨o, ho, rfl⟩
  · obtain ⟨-, hname⟩ | ⟨-, hname⟩ | ⟨-, hname⟩ := declared_error_cases h
    · rw [typeName] at hname
      cases hsegments : o.node.typeSegments with
      | ok segments =>
        rw [hsegments] at hname
        cases hname
      | error found =>
        rw [hsegments] at hname
        cases hname
        obtain hlong | hnode | ⟨name, hfirst, hnode | ⟨link, hlink, hnode⟩⟩ :=
          typeSegments_fault hsegments
        · exact absurd hlong hlimit
        · exact ⟨o, ho, hnode⟩
        · exact ⟨_, places_step ho hfirst, hnode⟩
        · obtain ⟨a, ha, rfl⟩ := hlink.exists_place (places_step ho hfirst) rfl
          exact ⟨a, ha, hnode⟩
    · exact ⟨o, ho, (methodName_fault hname).2⟩
    · obtain ⟨receiver, rfl⟩ | hlong | ⟨blamed, hblamed, -, hnode⟩ := receiverName_fault hname
      · exact ⟨o, ho, rfl⟩
      · exact absurd hlong hlimit
      · obtain ⟨a, ha, rfl⟩ := hblamed.exists_place ho
        exact ⟨a, ha, hnode⟩

end RubyOutline.Node
