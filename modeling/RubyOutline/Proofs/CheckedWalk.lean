import RubyOutline.Proofs.BlamedNode
import RubyOutline.Proofs.BuilderState
import RubyOutline.Proofs.CheckedReading

namespace RubyOutline

/-- A visit of a node, with the nodes around it. -/
structure Call where
  scope : Scope
  node : Node

/-- What a checked walk comes to, with the calls that it has made. There is no walk once something
has been reached for that is not there. -/
structure Traced where
  calls : List Call
  walk : Option Walk

namespace Traced

def silent (w : Walk) : Traced := ⟨[], some w⟩

/-- Continue a walk; one that is abandoned or has stopped makes no more calls. -/
def andThen (t u : Traced) : Traced :=
  match t.walk with
  | some (.finished fs ds) => ⟨t.calls ++ u.calls, u.walk.map (Walk.finished fs ds).andThen⟩
  | _ => t

def within (name location : String) (t : Traced) : Traced :=
  { t with walk := t.walk.map (Walk.within name location) }

def after (call : Call) (t : Traced) : Traced := { t with calls := call :: t.calls }

/-- Record a fault, given the walk over the children of the node that has it. -/
def ofFault (path : String) (fault : Fault) (children : Traced) : Traced :=
  match fault.reach with
  | .declaration => andThen (silent (.finished [] [Diagnostic.ofFault path fault])) children
  | .subtree => silent (.finished [] [Diagnostic.ofFault path fault])
  | .file => silent (.abandoned [])

def ofStop (path : String) (stop : Stop) (children : Traced) : Traced :=
  match stop with
  | .fault fault => ofFault path fault children
  | .outOfRange => ⟨[], none⟩

end Traced

mutual

/-- The walk with every access checked and every visit recorded. -/
def Node.checkedWalk (path : String) (scope : Scope) : Node → Traced
  | n@⟨_, kind, children, line, _⟩ =>
    Traced.after ⟨scope, n⟩ <|
      if Fault.maxDepth ≤ scope.length then
        Traced.ofFault path (.nestedTooDeep n) (.silent .empty)
      else
        match kind.role with
        | .transparent => Node.checkedWalkAll path (n :: scope) children
        | .classLike =>
          match n.checkedTypeName with
          | .error stop => Traced.ofStop path stop (.silent .empty)
          | .ok name =>
            (Node.checkedWalkAll path (n :: scope) children).within name
              (Location.render path line)
        | .instanceMethod | .staticMethod =>
          match n.checkedMethod path scope with
          | .error stop =>
            Traced.ofStop path stop (Node.checkedWalkAll path (n :: scope) children)
          | .ok method =>
            (Traced.silent (.finished [.method method] [])).andThen
              (Node.checkedWalkAll path (n :: scope) children)

def Node.checkedWalkAll (path : String) (scope : Scope) : List Child → Traced
  | [] => .silent .empty
  | .node n :: rest => (n.checkedWalk path scope).andThen (Node.checkedWalkAll path scope rest)
  | _ :: rest => Node.checkedWalkAll path scope rest

end

namespace Traced

theorem ofFault_eq {path : String} {fault : Fault} (h : fault.reach ≠ .declaration)
    (t t' : Traced) : ofFault path fault t = ofFault path fault t' := by
  unfold ofFault
  cases hreach : fault.reach with
  | declaration => exact absurd hreach h
  | subtree | file => rfl

theorem walk_andThen {t u : Traced} {w w' : Walk} (ht : t.walk = some w) (hu : u.walk = some w') :
    (t.andThen u).walk = some (w.andThen w') := by
  rw [andThen, ht]
  cases w with
  | finished fs ds => simp [hu]
  | abandoned ds => exact ht

theorem walk_ofFault {t : Traced} {w : Walk} (path : String) (fault : Fault)
    (ht : t.walk = some w) : (ofFault path fault t).walk = some (Walk.ofFault path fault w) := by
  unfold ofFault Walk.ofFault
  cases fault.reach with
  | declaration => exact walk_andThen rfl ht
  | subtree | file => rfl

end Traced

namespace Node

theorem checkedWalkAll_skip (path : String) (scope : Scope) {c : Child} (h : c.node? = none)
    (rest : List Child) :
    checkedWalkAll path scope (c :: rest) = checkedWalkAll path scope rest := by
  cases c with
  | node n => simp [Child.node?] at h
  | absent | name | literal => simp only [checkedWalkAll]

/-- One step of the checked walk, by the feature that the node makes by itself: nothing is reached
for that is not there. -/
theorem checkedWalk_eq (path : String) (scope : Scope) (n : Node) :
    n.checkedWalk path scope = Traced.after ⟨scope, n⟩
      (if Fault.maxDepth ≤ scope.length then
        Traced.ofFault path (.nestedTooDeep n) (.silent .empty)
      else
        let inside := checkedWalkAll path (n :: scope) n.children
        match n.heading path scope with
        | .error fault => Traced.ofFault path fault inside
        | .ok none => inside
        | .ok (some (.classLike name location)) => inside.within name location
        | .ok (some (.method m)) => (Traced.silent (.finished [.method m] [])).andThen inside) := by
  obtain ⟨identity, kind, children, line, column⟩ := n
  rw [checkedWalk]
  split
  · rfl
  · unfold heading
    cases hrole : kind.role with
    | transparent => rfl
    | classLike =>
      simp only
      rw [checkedTypeName_eq, typeName]
      cases hseg : typeSegments ⟨identity, kind, children, line, column⟩ with
      | ok segments => rfl
      | error fault =>
        exact congrArg (Traced.after _) (Traced.ofFault_eq (typeSegments_error hseg) _ _)
    | instanceMethod | staticMethod =>
      simp only
      rw [checkedMethod_eq]
      cases method path scope ⟨identity, kind, children, line, column⟩ <;> rfl

theorem walk_checkedWalkAll {path : String} {scope : Scope} {children : List Child}
    (h : ∀ c : Node, .node c ∈ children →
      (c.checkedWalk path scope).walk = some (c.walk path scope)) :
    (checkedWalkAll path scope children).walk = some (walkAll path scope children) := by
  induction children using Child.listInduction with
  | nil =>
    rw [checkedWalkAll, walkAll]
    rfl
  | node c rest ih =>
    rw [checkedWalkAll, walkAll]
    exact Traced.walk_andThen (h c (by simp)) (ih fun d hd => h d (List.mem_cons_of_mem _ hd))
  | skip c rest hc ih =>
    rw [checkedWalkAll_skip path scope hc, walkAll_skip path scope hc]
    exact ih fun d hd => h d (List.mem_cons_of_mem _ hd)

/-- A checked walk comes to what the walk comes to. -/
theorem walk_checkedWalk (path : String) (scope : Scope) (n : Node) :
    (n.checkedWalk path scope).walk = some (n.walk path scope) := by
  induction n using Node.childInduction generalizing scope with
  | step n ih =>
    have hinside := walk_checkedWalkAll fun c hc => ih c hc (n :: scope)
    rw [checkedWalk_eq, walk_eq]
    show Traced.walk (if _ then _ else _) = some (if _ then _ else _)
    split_ifs
    · exact Traced.walk_ofFault path _ rfl
    · cases n.heading path scope with
      | error fault => exact Traced.walk_ofFault path fault hinside
      | ok made =>
        cases made with
        | none => exact hinside
        | some heading =>
          cases heading with
          | classLike name location => exact congrArg (Option.map _) hinside
          | method m => exact Traced.walk_andThen rfl hinside

end Node

/-- The nodes around a call: they do not pass the depth limit, and each of them is entered. -/
structure Scope.Passable (scope : Scope) : Prop where
  depth : scope.length ≤ Fault.maxDepth
  entered : ∀ n ∈ scope, n.Entered

namespace Scope.Passable

variable {scope : Scope}

theorem resolved (h : scope.Passable) : scope.Resolved :=
  fun n hn => (h.entered n hn).typeSegments

theorem isRejected (h : scope.Passable) : ∀ n ∈ scope, n.isRejected = false :=
  fun n hn => (h.entered n hn).isRejected

theorem cons (h : scope.Passable) {n : Node} (hdepth : scope.length < Fault.maxDepth)
    (hn : n.Entered) : Scope.Passable (n :: scope) where
  depth := hdepth
  entered := List.forall_mem_cons.mpr ⟨hn, h.entered⟩

end Scope.Passable

theorem Walk.isFinished_andThen (w w' : Walk) :
    (w.andThen w').isFinished = (w.isFinished && w'.isFinished) := by
  cases w <;> cases w' <;> rfl

theorem Walk.isFinished_within (name location : String) (w : Walk) :
    (w.within name location).isFinished = w.isFinished := by
  cases w <;> rfl

theorem Traced.calls_andThen {t : Traced} {w : Walk} (ht : t.walk = some w)
    (hw : w.isFinished = true) (u : Traced) : (t.andThen u).calls = t.calls ++ u.calls := by
  cases w with
  | abandoned => cases hw
  | finished features diagnostics => rw [andThen, ht]

def Occurrence.call (o : Occurrence) : Call := ⟨o.scope, o.node⟩

namespace Node

/-- One step of a walk that finishes: its calls go on inside a node that is entered, and end at any
other. -/
theorem calls_step {path : String} {scope : Scope} {n : Node} (hscope : scope.Passable)
    (h : (n.walk path scope).isFinished = true) :
    (Scope.Passable (n :: scope) ∧ (walkAll path (n :: scope) n.children).isFinished = true ∧
      (n.checkedWalk path scope).calls =
        ⟨scope, n⟩ :: (checkedWalkAll path (n :: scope) n.children).calls) ∨
    ((Fault.maxDepth ≤ scope.length ∨ n.isRejected = true) ∧
      (n.checkedWalk path scope).calls = [⟨scope, n⟩]) := by
  obtain ⟨groups, -, hsegments⟩ := hscope.resolved.segments
  have hdeclared := heading_name hsegments path n
  rw [walk_eq] at h
  rw [checkedWalk_eq]
  by_cases hdepth : Fault.maxDepth ≤ scope.length
  · exact .inr ⟨.inl hdepth, by rw [if_pos hdepth]; rfl⟩
  rw [if_neg hdepth] at h ⊢
  have hcons (hn : n.Entered) : Scope.Passable (n :: scope) :=
    hscope.cons (Nat.lt_of_not_le hdepth) hn
  cases hheading : n.heading path scope with
  | error fault =>
    replace hdeclared : n.declared = .error fault := by
      rw [← hdeclared, hheading]
      rfl
    cases hreach : fault.reach with
    | file =>
      simp only [hheading, Walk.ofFault, hreach] at h
      cases h
    | subtree =>
      refine .inr ⟨.inr ?_, ?_⟩
      · rw [isRejected_of_error hdeclared, hreach]
        rfl
      · simp only [Traced.ofFault, hreach]
        rfl
    | declaration =>
      simp only [hheading, Walk.ofFault, hreach, Walk.isFinished_andThen] at h
      refine .inl ⟨hcons fun e he => ?_, h, ?_⟩
      · cases hdeclared.symm.trans he
        exact hreach
      · simp only [Traced.ofFault, hreach]
        rfl
  | ok made =>
    have hentered : n.Entered := by
      intro e he
      rw [← hdeclared, hheading] at he
      cases he
    rw [hheading] at h
    cases made with
    | none => exact .inl ⟨hcons hentered, h, rfl⟩
    | some heading =>
      cases heading with
      | classLike name location =>
        rw [Walk.isFinished_within] at h
        exact .inl ⟨hcons hentered, h, rfl⟩
      | method m =>
        rw [Walk.isFinished_andThen] at h
        exact .inl ⟨hcons hentered, h, rfl⟩

/-- The calls of the children of a node, one child after the other. -/
theorem calls_checkedWalkAll {path : String} {scope : Scope} {way : List Nat}
    {children : List Child} (index : Nat)
    (h : ∀ c : Node, .node c ∈ children → ∀ i, (c.walk path scope).isFinished = true →
      (c.checkedWalk path scope).calls =
        ((c.occurrences (i :: way) scope).filter Occurrence.isVisited).map Occurrence.call)
    (hfinished : (walkAll path scope children).isFinished = true) :
    (checkedWalkAll path scope children).calls =
      ((occurrencesAll way index scope children).filter Occurrence.isVisited).map
        Occurrence.call := by
  induction children using Child.listInduction generalizing index with
  | nil => rfl
  | node c rest ih =>
    rw [walkAll, Walk.isFinished_andThen, Bool.and_eq_true] at hfinished
    rw [checkedWalkAll, occurrencesAll, List.filter_append, List.map_append,
      Traced.calls_andThen (c.walk_checkedWalk path scope) hfinished.1, h c (by simp) _ hfinished.1,
      ih (index + 1) (fun d hd => h d (List.mem_cons_of_mem _ hd)) hfinished.2]
  | skip c rest hc ih =>
    rw [walkAll_skip path scope hc] at hfinished
    rw [checkedWalkAll_skip path scope hc, occurrencesAll_skip way index scope hc]
    exact ih (index + 1) (fun d hd => h d (List.mem_cons_of_mem _ hd)) hfinished

/-- The calls of a walk that finishes are the visited places, in their order. -/
theorem calls_checkedWalk {path : String} {n : Node} {way : List Nat} {scope : Scope}
    (hscope : scope.Passable) (h : (n.walk path scope).isFinished = true) :
    (n.checkedWalk path scope).calls =
      ((n.occurrences way scope).filter Occurrence.isVisited).map Occurrence.call := by
  induction n using Node.childInduction generalizing way scope with
  | step n ih =>
    rw [filter_occurrences hscope.depth hscope.isRejected, List.map_cons]
    obtain ⟨hinside, hfinished, hcalls⟩ | ⟨hends, hcalls⟩ := calls_step hscope h
    · have hchildren :=
        calls_checkedWalkAll 0 (fun c hc i => @ih c hc (i :: way) _ hinside) hfinished
      rw [hcalls, hchildren]
      rfl
    · have hnone : (occurrencesAll way 0 (n :: scope) n.children).filter Occurrence.isVisited =
          [] := by
        apply filter_occurrencesAll_eq_nil
        exact hends.imp Nat.lt_succ_of_le fun hn => ⟨n, by simp, hn⟩
      rw [hcalls, hnone]
      rfl

end Node

/-- A build that checks every access; it gives nothing once something has been reached for that is
not there. -/
def Builder.checkedBuild (b : Builder) (root : Node) : Option Extraction :=
  (root.checkedWalk b.path []).walk.map fun
    | .finished features diagnostics => ⟨features, diagnostics⟩
    | .abandoned diagnostics =>
      ⟨[], diagnostics ++ [Diagnostic.ofFault b.path (.untraversable root)]⟩

theorem Builder.checkedBuild_eq (b : Builder) (root : Node) :
    b.checkedBuild root = some (b.build (.node root)).1 := by
  rw [build_eq_extract]
  cases hwalk : root.walk b.path [] with
  | finished | abandoned => simp [checkedBuild, Node.walk_checkedWalk, extract, hwalk]

/-- A walk never meets a class or module around it that cannot be named, and no access that it makes
is out of range, as long as no chain of constants is too long for it. Its calls are the visited
places in their order. Around each of them the classes and modules have segments, and so the scope
has; a method fails by a receiver that is not supported, or as malformed at itself or at a constant
of its receiver; a build that checks every access gives what the build gives; and every diagnostic
stands at the line of a node of the tree. -/
theorem walk_meets_named_scopes (b : Builder) (root : Node)
    (hfinished : (root.walk b.path []).isFinished = true) :
    (root.checkedWalk b.path []).calls = root.visited.map Occurrence.call ∧
    (∀ call ∈ (root.checkedWalk b.path []).calls,
      (∀ t ∈ call.scope, t.kind.isType = true →
        ∃ segments, t.typeSegments = .ok segments ∧ segments ≠ []) ∧
      (∃ names, Scope.segments call.scope = .ok names) ∧
      (call.scope.length < Fault.maxDepth → call.node.kind.role ∈ [.instanceMethod, .staticMethod] →
        ∀ fault, call.node.method b.path call.scope = .error fault →
          (∃ receiver, fault = .unsupportedReceiver call.node receiver) ∨
          ∃ blamed, call.node.Blames blamed ∧ fault.kind = .malformed ∧
            fault.node? = some blamed)) ∧
    b.checkedBuild root = some (b.build (.node root)).1 ∧
    ∀ d ∈ (b.build (.node root)).1.diagnostics,
      ∃ o ∈ root.places, d.location = Location.render b.path o.node.line := by
  have hno := (root.isFinished_walk_iff b.path).mp hfinished
  have hcalls : (root.checkedWalk b.path []).calls = root.visited.map Occurrence.call :=
    Node.calls_checkedWalk ⟨Nat.zero_le _, by simp⟩ hfinished
  refine ⟨hcalls, fun call hcall => ?_, b.checkedBuild_eq root, fun d hd => ?_⟩
  · rw [hcalls] at hcall
    obtain ⟨o, ho, rfl⟩ := List.mem_map.mp hcall
    have hresolved : o.call.scope.Resolved := Node.scope_resolved hno ho
    obtain ⟨groups, -, hsegments⟩ := hresolved.segments
    refine ⟨fun t ht hkind => ?_, ⟨_, hsegments⟩, fun hdepth hrole fault hfault => ?_⟩
    · obtain ⟨segments, hown⟩ := hresolved t ht hkind
      exact ⟨segments, hown, Node.typeSegments_ne_nil hown⟩
    · obtain hreceiver | hlong | hblamed := Node.method_fault hresolved hfault
      · exact .inl hreceiver
      · have hdeclared : o.declared = .error fault :=
          (if_neg (Nat.not_le.mpr hdepth)).trans (Node.declared_of_method hresolved hrole hfault)
        have hover := hno o ho
        rw [Occurrence.overflows, Occurrence.fault?, hdeclared, hlong] at hover
        cases hover
      · exact .inr hblamed
  · rw [Builder.build_eq_extract, Extraction.diagnostics_eq hfinished] at hd
    obtain ⟨fault, hfault, rfl⟩ := List.mem_map.mp hd
    obtain ⟨o, ho, hown⟩ := List.mem_filterMap.mp hfault
    have hdeclared : o.declared = .error fault := by
      rw [Occurrence.fault?] at hown
      cases hdeclared : o.declared <;> rw [hdeclared] at hown <;> cases hown
      rfl
    have hreach : fault.reach ≠ .file := by
      have hover := hno o ho
      rw [Occurrence.overflows, hown, Option.any_some] at hover
      simpa using hover
    obtain ⟨a, ha, hnode⟩ :=
      Node.exists_place_of_fault (List.mem_filter.mp ho).1 hdeclared hreach
    refine ⟨a, ha, ?_⟩
    rw [Diagnostic.ofFault, hnode]
    rfl

/-- The constant in front of a receiver, without a name. -/
def namelessConstant : Node := ⟨[6], .constant, [.absent, .name ""], 3, 0⟩

/-- A method that is declared on a constant inside a nameless one. -/
def misdeclaredMethod : Node :=
  ⟨[4], .singletonDef, [.node ⟨[5], .constant, [.node namelessConstant, .name "C"], 2, 0⟩,
    .name "go", .absent, .absent], 2, 0⟩

/-- The class `A` with that method. -/
def misdeclaringClass : Node :=
  ⟨[1], .classDef, [.node ⟨[2], .constant, [.absent, .name "A"], 1, 0⟩, .absent,
    .node ⟨[3], .group, [.node misdeclaredMethod], 2, 0⟩], 1, 0⟩

theorem walk_meets_named_scopes_misdeclaringClass :
    let b : Builder := ⟨"a.rb", []⟩
    (misdeclaringClass.walk b.path []).isFinished = true ∧
    (∃ call ∈ (misdeclaringClass.checkedWalk b.path []).calls, call.node = misdeclaredMethod ∧
      (∃ names, Scope.segments call.scope = .ok names) ∧
      ∃ fault blamed, call.node.method b.path call.scope = .error fault ∧
        call.node.Blames blamed ∧ fault.node? = some blamed ∧ blamed = namelessConstant) ∧
    b.checkedBuild misdeclaringClass = some (b.build (.node misdeclaringClass)).1 ∧
    (b.build (.node misdeclaringClass)).1.diagnostics =
      [⟨.malformed, "const node has no name at position 1", "a.rb:3"⟩] ∧
    ∃ o ∈ misdeclaringClass.places, "a.rb:3" = Location.render b.path o.node.line := by
  intro b
  have hfinished : (misdeclaringClass.walk b.path []).isFinished = true := by decide
  obtain ⟨-, hcalls, hbuild, hlocated⟩ := walk_meets_named_scopes b misdeclaringClass hfinished
  have hrecorded : (b.build (.node misdeclaringClass)).1.diagnostics =
      [⟨.malformed, "const node has no name at position 1", "a.rb:3"⟩] := by decide
  have hlast := hlocated _ (by rw [hrecorded]; exact List.mem_singleton.mpr rfl)
  refine ⟨hfinished, ?_, hbuild, hrecorded, hlast⟩
  · have hcall : (misdeclaringClass.checkedWalk b.path []).calls[3]? =
        some ⟨[⟨[3], .group, [.node misdeclaredMethod], 2, 0⟩, misdeclaringClass],
          misdeclaredMethod⟩ := rfl
    have hmem := List.mem_of_getElem? hcall
    obtain ⟨-, hnames, hfaults⟩ := hcalls _ hmem
    refine ⟨_, hmem, rfl, hnames, .missingName namelessConstant 1, ?_⟩
    obtain ⟨receiver, hreceiver⟩ | ⟨blamed, hblames, -, hnode⟩ :=
      hfaults (by decide) (by decide) (.missingName namelessConstant 1) rfl
    · cases hreceiver
    · exact ⟨blamed, rfl, hblames, hnode, (Option.some.inj hnode).symm⟩

end RubyOutline
