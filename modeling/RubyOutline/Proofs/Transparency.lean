import RubyOutline.Proofs.Isolation
import RubyOutline.Proofs.TypeBody

namespace RubyOutline

/-- A method without what depends on the block that it stands in. -/
def Method.bare (m : Method) : Method := { m with static := false, visibility := .pub }

def Heading.bare : Heading → Heading
  | .classLike name location => .classLike name location
  | .method m => .method m.bare

namespace Feature

mutual

def bare : Feature → Feature
  | .classLike name location children => .classLike name location (bareAll children)
  | .method m => .method m.bare

def bareAll : List Feature → List Feature
  | [] => []
  | f :: fs => f.bare :: bareAll fs

end

theorem bareAll_append (fs gs : List Feature) :
    bareAll (fs ++ gs) = bareAll fs ++ bareAll gs := by
  induction fs with
  | nil => rfl
  | cons f fs ih => rw [List.cons_append, bareAll, bareAll, ih, List.cons_append]

end Feature

namespace Walk

def bare : Walk → Walk
  | .finished features diagnostics => .finished (Feature.bareAll features) diagnostics
  | .abandoned diagnostics => .abandoned diagnostics

theorem bare_andThen (u v : Walk) : (u.andThen v).bare = u.bare.andThen v.bare := by
  cases u <;> cases v <;> simp [andThen, bare, Feature.bareAll_append]

theorem features_bare (w : Walk) : w.bare.features = Feature.bareAll w.features := by
  cases w <;> rfl

theorem diagnostics_bare (w : Walk) : w.bare.diagnostics = w.diagnostics := by
  cases w <;> rfl

theorem bare_frame (made : Except (Reach × Diagnostic) (Option Heading)) (inside : Walk) :
    (frame made inside).bare = frame (made.map (Option.map Heading.bare)) inside.bare := by
  cases made with
  | error e =>
    obtain ⟨reach, diagnostic⟩ := e
    cases reach with
    | declaration => exact bare_andThen _ _
    | subtree | file => rfl
  | ok made =>
    cases made with
    | none => rfl
    | some heading =>
      cases heading with
      | classLike name location => cases inside <;> rfl
      | method m => exact bare_andThen _ _

end Walk

namespace Node

mutual

/-- The number of levels of a tree. -/
def levels : Node → Nat
  | ⟨_, _, children, _, _⟩ => levelsAll children + 1

def levelsAll : List Child → Nat
  | [] => 0
  | .node n :: rest => max n.levels (levelsAll rest)
  | _ :: rest => levelsAll rest

end

theorem levels_eq (n : Node) : n.levels = levelsAll n.children + 1 := by
  obtain ⟨identity, kind, children, line, column⟩ := n
  rw [levels]

theorem levelsAll_le_iff {children : List Child} {limit : Nat} :
    levelsAll children ≤ limit ↔ ∀ c : Node, .node c ∈ children → c.levels ≤ limit := by
  induction children using Child.listInduction with
  | nil => simp [levelsAll]
  | node n rest ih =>
    rw [levelsAll, Nat.max_le, ih]
    simp only [List.mem_cons, Child.node.injEq, forall_eq_or_imp]
  | skip c rest hc ih =>
    cases c with
    | node n => cases hc
    | absent | name | literal => simp [levelsAll, ih]

theorem levels_lt_of_mem {n c : Node} (h : .node c ∈ n.children) : c.levels < n.levels := by
  rw [levels_eq n]
  exact Nat.lt_succ_of_le (levelsAll_le_iff.mp (Nat.le_refl _) c h)

/-- The levels of a tree are those of its deepest place. -/
theorem levels_le_iff {n : Node} {way : List Nat} {scope : Scope} {limit : Nat} :
    scope.length + n.levels ≤ limit ↔ ∀ o ∈ n.occurrences way scope, o.depth < limit := by
  induction n using Node.childInduction generalizing way scope with
  | step n ih =>
    rw [levels_eq]
    constructor
    · intro hle o ho
      rcases mem_occurrences.mp ho with rfl | ⟨i, c, hc, ho⟩
      · change scope.length < limit
        omega
      · have hmem := List.mem_of_getElem? hc
        have hchild : c.levels ≤ levelsAll n.children := levelsAll_le_iff.mp (Nat.le_refl _) c hmem
        refine (ih c hmem).mp ?_ o ho
        rw [List.length_cons]
        omega
    · intro hdepth
      have hself : scope.length < limit := hdepth _ (mem_occurrences.mpr (.inl rfl))
      have hchildren : levelsAll n.children ≤ limit - (scope.length + 1) := by
        refine levelsAll_le_iff.mpr fun c hc => ?_
        obtain ⟨i, hi⟩ := List.getElem?_of_mem hc
        have hle := (@ih c hc (i :: way) (n :: scope)).mpr fun o ho =>
          hdepth o (mem_occurrences.mpr (.inr ⟨i, c, hi, ho⟩))
        rw [List.length_cons] at hle
        omega
      omega

end Node

/-- The second scope says the same about the class path of a place as the first, in which every
class or module can be named. -/
def Scope.Agrees (s s' : Scope) : Prop := s.Resolved ∧ Scope.segments s' = Scope.segments s

theorem Scope.Agrees.wrap {s s' : Scope} (h : s.Agrees s') {n : Node}
    (hrole : n.kind.role = .transparent) : s.Agrees (n :: s') := by
  have htype : ¬n.kind.isType = true := by
    rw [← Kind.role_eq_classLike_iff, hrole]
    decide
  refine ⟨h.1, ?_⟩
  rw [Scope.segments, h.2]
  simp only [if_neg htype, bind_pure]

/-- A kind of node whose first child is a name or a receiver. -/
def Kind.readsFirst : Kind → Bool
  | .classDef | .moduleDef | .singletonDef => true
  | _ => false

namespace Node

/-- Nodes that declare the same: they have the same kind and line, and what is read off their
children looks the same. -/
structure DeclaresAs (path : String) (n n' : Node) : Prop where
  kind : n'.kind = n.kind
  line : n'.line = n.line
  typeSegments : n.kind.isType = true →
    Fault.seen path n'.typeSegments = Fault.seen path n.typeSegments
  methodName : Fault.seen path n'.methodName = Fault.seen path n.methodName
  receiverName : n.kind = .singletonDef →
    Fault.seen path n'.receiverName = Fault.seen path n.receiverName

namespace DeclaresAs

variable {path : String} {n n' : Node} {s s' : Scope}

theorem refl (path : String) (n : Node) : DeclaresAs path n n :=
  ⟨rfl, rfl, fun _ => rfl, rfl, fun _ => rfl⟩

theorem ownerSegments (h : DeclaresAs path n n') (names : List String) :
    Fault.seen path (n'.ownerSegments names) = Fault.seen path (n.ownerSegments names) := by
  rw [Node.ownerSegments, Node.ownerSegments, h.kind]
  split
  · rename_i hkind
    rw [Fault.seen_map, Fault.seen_map, h.receiverName hkind]
  · rfl

/-- Nodes that declare the same make the same feature of themselves where the class path is the
same, but for what depends on the block. -/
theorem bare_heading (h : DeclaresAs path n n') (hscope : s.Agrees s') :
    (Fault.seen path (n'.heading path s')).map (Option.map Heading.bare) =
      (Fault.seen path (n.heading path s)).map (Option.map Heading.bare) := by
  obtain ⟨hresolved, hsame⟩ := hscope
  obtain ⟨groups, -, hsegments⟩ := hresolved.segments
  have hmethod : (Fault.seen path (n'.method path s')).map Method.bare =
      (Fault.seen path (n.method path s)).map Method.bare := by
    rw [method_eq hsegments, method_eq (hsame.trans hsegments)]
    simp only [Fault.seen_bind, h.methodName, h.ownerSegments, h.line]
    cases Fault.seen path n.methodName with
    | error e => rfl
    | ok name => cases Fault.seen path (n.ownerSegments groups.flatten) <;> rfl
  have hheading (made : Except (Reach × Diagnostic) Method) :
      (made.map fun m => some (Heading.method m)).map (Option.map Heading.bare) =
        (made.map Method.bare).map fun m => some (.method m) := by
    cases made <;> rfl
  unfold heading
  rw [h.kind]
  cases hrole : n.kind.role with
  | transparent => rfl
  | classLike =>
    have htype := (Kind.role_eq_classLike_iff n.kind).mp hrole
    simp only [typeName, Fault.seen_map, h.typeSegments htype, h.line]
  | instanceMethod | staticMethod => simp only [Fault.seen_map, hheading, hmethod]

/-- The inside of nodes that declare the same has the same class path. -/
theorem agrees (h : DeclaresAs path n n') (hscope : s.Agrees s') (hentered : n.Entered) :
    Scope.Agrees (n :: s) (n' :: s') := by
  refine ⟨hentered.resolved hscope.1, ?_⟩
  rw [Scope.segments, Scope.segments, h.kind, hscope.2]
  by_cases hkind : n.kind.isType = true
  · obtain ⟨own, hown⟩ := hentered.typeSegments hkind
    have hown' : n'.typeSegments = .ok own := by
      rw [← @Fault.seen_eq_ok _ path, h.typeSegments hkind, hown]
      rfl
    rw [hown, hown']
  · simp only [if_neg hkind]

/-- One step of two walks side by side. -/
theorem bare_walk (h : DeclaresAs path n n') (hscope : s.Agrees s')
    (hdepth : s.length < Fault.maxDepth) (hdepth' : s'.length < Fault.maxDepth)
    (hinside : Scope.Agrees (n :: s) (n' :: s') →
      (walkAll path (n' :: s') n'.children).bare = (walkAll path (n :: s) n.children).bare) :
    (n'.walk path s').bare = (n.walk path s).bare := by
  rw [walk_eq_frame, walk_eq_frame, if_neg (Nat.not_le.mpr hdepth), if_neg (Nat.not_le.mpr hdepth'),
    Walk.bare_frame, h.bare_heading hscope, ← Walk.bare_frame]
  rcases frame_cases path n hscope.1 with ⟨-, d, hframe⟩ | hframe | ⟨hentered, -⟩
  · rw [hframe]
  · rw [hframe]
  · rw [Walk.bare_frame, Walk.bare_frame, hinside (h.agrees hscope hentered)]

end DeclaresAs

section WithChild

variable {path : String} {n : Node} {i : Nat} {c c' : Node}

theorem getElem?_withChild_ne {c : Child} {position : Nat} (h : position ≠ i) :
    (n.withChild i c).children[position]? = n.children[position]? := by
  rw [withChild, List.getElem?_set_ne h.symm]

theorem getElem?_withChild_self {c : Child} (hc : n.children[i]? = some c) (c' : Child) :
    (n.withChild i c').children[i]? = some c' := by
  obtain ⟨hlt, -⟩ := List.getElem?_eq_some_iff.mp hc
  rw [withChild, List.getElem?_set_self hlt]

/-- A node is no name, whichever node it is. -/
theorem seen_nameAt_withChild (hc : n.children[i]? = some (.node c)) (position : Nat) :
    Fault.seen path ((n.withChild i (.node c')).nameAt position) =
      Fault.seen path (n.nameAt position) := by
  unfold nameAt childAt
  by_cases hposition : position = i
  · rw [hposition, hc, getElem?_withChild_self hc]
    rfl
  · rw [getElem?_withChild_ne hposition]
    cases n.children[position]? with
    | none => rfl
    | some child =>
      cases child with
      | absent | node | literal => rfl
      | name text =>
        simp only [bind, Except.bind]
        split
        · rfl
        · rfl

theorem seen_typeSegments_withChild (hi : i ≠ 0) (c : Child) :
    Fault.seen path (n.withChild i c).typeSegments = Fault.seen path n.typeSegments := by
  unfold typeSegments childAt
  rw [getElem?_withChild_ne hi.symm]
  cases n.children[0]? with
  | none => rfl
  | some child => cases child <;> rfl

theorem seen_receiverName_withChild (hi : i ≠ 0) (c : Child) :
    Fault.seen path (n.withChild i c).receiverName = Fault.seen path n.receiverName := by
  unfold receiverName childAt
  rw [getElem?_withChild_ne hi.symm]
  cases n.children[0]? with
  | none => rfl
  | some child =>
    cases child with
    | absent | name | literal => rfl
    | node receiver =>
      simp only [bind, Except.bind]
      split
      · rfl
      · split
        · rfl
        · rfl

/-- What a node declares is read off its names and, where its kind has one there, off its first
node. -/
theorem declaresAs_withChild (hc : n.children[i]? = some (.node c))
    (hfirst : i = 0 → n.kind.readsFirst = false) :
    DeclaresAs path n (n.withChild i (.node c')) where
  kind := rfl
  line := rfl
  typeSegments htype := by
    refine seen_typeSegments_withChild (fun hi => ?_) _
    have hreads := hfirst hi
    cases hkind : n.kind <;> rw [hkind] at htype hreads <;> cases htype <;> cases hreads
  methodName := by
    have hkind : (n.withChild i (.node c')).kind = n.kind := rfl
    rw [Node.methodName, Node.methodName, hkind]
    split
    · exact seen_nameAt_withChild hc 1
    · exact seen_nameAt_withChild hc 0
  receiverName hkind := by
    refine seen_receiverName_withChild (fun hi => ?_) _
    have hreads := hfirst hi
    rw [hkind] at hreads
    cases hreads

end WithChild

theorem bare_walkAll_congr {path : String} {s s' : Scope} {children : List Child}
    (h : ∀ c : Node, .node c ∈ children → (c.walk path s').bare = (c.walk path s).bare) :
    (walkAll path s' children).bare = (walkAll path s children).bare := by
  induction children using Child.listInduction with
  | nil => rw [walkAll, walkAll]
  | node c rest ih =>
    rw [walkAll, walkAll, Walk.bare_andThen, Walk.bare_andThen, h c (by simp),
      ih fun d hd => h d (List.mem_cons_of_mem _ hd)]
  | skip c rest hc ih =>
    rw [walkAll_skip _ _ hc, walkAll_skip _ _ hc, ih fun d hd => h d (List.mem_cons_of_mem _ hd)]

/-- The walk over children, with one of them by itself. -/
theorem walkAll_split {path : String} {scope : Scope} {children : List Child} {i : Nat} {c : Node}
    (h : children[i]? = some (.node c)) :
    walkAll path scope children = (walkAll path scope (children.take i)).andThen
      ((c.walk path scope).andThen (walkAll path scope (children.drop (i + 1)))) := by
  obtain ⟨hlt, hget⟩ := List.getElem?_eq_some_iff.mp h
  have hchildren : children = children.take i ++ .node c :: children.drop (i + 1) := by
    rw [← hget, List.getElem_cons_drop, List.take_append_drop]
  rw [← walkAll, ← walkAll_append, ← hchildren]

theorem levels_add_one_le {n c : Node} {scope : Scope} {limit : Nat} (hc : .node c ∈ n.children)
    (h : scope.length + n.levels ≤ limit) : (n :: scope).length + c.levels ≤ limit := by
  have hlt := levels_lt_of_mem hc
  rw [List.length_cons]
  omega

theorem length_lt_of_levels {n : Node} {scope : Scope} {limit : Nat}
    (h : scope.length + n.levels ≤ limit) : scope.length < limit := by
  rw [levels_eq] at h
  omega

/-- Where the class path is the same, a node has the same features. -/
theorem bare_walk_of_agrees {path : String} {s s' : Scope} (n : Node) (hscope : s.Agrees s')
    (hdepth : s.length + n.levels ≤ Fault.maxDepth)
    (hdepth' : s'.length + n.levels ≤ Fault.maxDepth) :
    (n.walk path s').bare = (n.walk path s).bare := by
  induction n using Node.childInduction generalizing s s' with
  | step n ih =>
    refine (DeclaresAs.refl path n).bare_walk hscope (length_lt_of_levels hdepth)
      (length_lt_of_levels hdepth') fun hinside => bare_walkAll_congr fun c hc => ?_
    exact ih c hc hinside (levels_add_one_le hc hdepth) (levels_add_one_le hc hdepth')

/-- The second tree is the first one with a node put into a group, which may be of any kind that
declares nothing. No name and no receiver changes. -/
inductive Wrapped : Node → Node → Prop where
  | here (n : Node) (identity : Identity) {kind : Kind} (line column : Int)
      (h : kind.role = .transparent) : Wrapped n ⟨identity, kind, [.node n], line, column⟩
  | inside {n c c' : Node} {i : Nat} (hc : n.children[i]? = some (.node c))
      (hfirst : i = 0 → n.kind.readsFirst = false) (h : Wrapped c c') :
      Wrapped n (n.withChild i (.node c'))

namespace Wrapped

variable {path : String} {s s' : Scope} {n n' : Node}

theorem levels_le (h : Wrapped n n') : n.levels ≤ n'.levels := by
  induction h with
  | here n identity line column hrole => exact Nat.le_of_lt (levels_lt_of_mem (by simp))
  | @inside n c c' i hc hfirst h ih =>
    rw [levels_eq, levels_eq]
    refine Nat.succ_le_succ (levelsAll_le_iff.mpr fun d hd => ?_)
    have hbound {e : Node} (he : .node e ∈ (n.withChild i (.node c')).children) :
        e.levels ≤ levelsAll (n.withChild i (.node c')).children :=
      levelsAll_le_iff.mp (Nat.le_refl _) e he
    obtain ⟨j, hj⟩ := List.getElem?_of_mem hd
    by_cases hij : j = i
    · obtain rfl : d = c := by
        rw [hij, hc] at hj
        cases hj
        rfl
      exact Nat.le_trans ih (hbound (List.mem_of_getElem? (getElem?_withChild_self hc _)))
    · rw [← getElem?_withChild_ne hij] at hj
      exact hbound (List.mem_of_getElem? hj)

/-- The two walks side by side, down to the wrapper and on from there. -/
theorem bare_walk (h : Wrapped n n') (hscope : s.Agrees s')
    (hdepth : s.length + n.levels ≤ Fault.maxDepth)
    (hdepth' : s'.length + n'.levels ≤ Fault.maxDepth) :
    (n'.walk path s').bare = (n.walk path s).bare := by
  induction h generalizing s s' with
  | @here n identity kind line column hrole =>
    -- from here on the scopes differ by the wrapper, which adds nothing to the class path
    let wrapper : Node := ⟨identity, kind, [.node n], line, column⟩
    have hheading : wrapper.heading path s' = .ok none := by rw [heading, hrole]
    have hwalk : wrapper.walk path s' = n.walk path (wrapper :: s') := by
      rw [walk_eq_frame, if_neg (Nat.not_le.mpr (length_lt_of_levels hdepth')), hheading]
      change walkAll path (wrapper :: s') [.node n] = _
      rw [walkAll, walkAll, Walk.andThen_empty]
    rw [hwalk]
    exact bare_walk_of_agrees n (hscope.wrap hrole) hdepth
      (levels_add_one_le (List.mem_singleton.mpr rfl) hdepth')
  | @inside n c c' i hc hfirst h ih =>
    have hc' := getElem?_withChild_self hc (.node c')
    have hmem := List.mem_of_getElem? hc
    have hmem' := List.mem_of_getElem? hc'
    refine (declaresAs_withChild hc hfirst).bare_walk hscope (length_lt_of_levels hdepth)
      (length_lt_of_levels hdepth') fun hinside => ?_
    -- those beside the changed child see the wrapper only through the scope
    have hbeside (d : Node) (hd : .node d ∈ n.children.take i ++ n.children.drop (i + 1)) :
        (d.walk path (n.withChild i (.node c') :: s')).bare = (d.walk path (n :: s)).bare := by
      rw [← List.eraseIdx_eq_take_drop_succ] at hd
      obtain ⟨j, hj, hd⟩ := List.mem_eraseIdx_iff_getElem?.mp hd
      refine bare_walk_of_agrees d hinside
        (levels_add_one_le (List.mem_of_getElem? hd) hdepth) (levels_add_one_le ?_ hdepth')
      rw [← getElem?_withChild_ne hj] at hd
      exact List.mem_of_getElem? hd
    have htake : (n.withChild i (.node c')).children.take i = n.children.take i :=
      List.take_set_of_le (Nat.le_refl i)
    have hdrop : (n.withChild i (.node c')).children.drop (i + 1) = n.children.drop (i + 1) :=
      List.drop_set_of_lt (Nat.lt_succ_self i)
    rw [walkAll_split hc, walkAll_split hc', htake, hdrop]
    simp only [Walk.bare_andThen]
    rw [bare_walkAll_congr fun d hd => hbeside d (List.mem_append_left _ hd),
      ih hinside (levels_add_one_le hmem hdepth) (levels_add_one_le hmem' hdepth'),
      bare_walkAll_congr fun d hd => hbeside d (List.mem_append_right _ hd)]

end Wrapped

end Node

namespace Occurrence

/-- The place is in no name and no receiver: the way to it goes through no first child of a class,
a module or a singleton method. -/
def isOutsideNames (o : Occurrence) : Bool :=
  (o.way.zip o.scope).all fun (i, around) => !(i == 0 && around.kind.readsFirst)

theorem wrapped_rebuild {root : Node} {o : Occurrence} (ho : o ∈ root.places)
    (hnames : o.isOutsideNames = true) {n : Node} (h : o.node.Wrapped n) :
    root.Wrapped (o.rebuild n) := by
  refine Node.occurrences_induction (P := fun o => o.isOutsideNames = true → ∀ n,
    o.node.Wrapped n → root.Wrapped (o.rebuild n)) (fun _ n h => h)
    (fun parent _ hparent i c hc hnames n h => ?_) o ho hnames n h
  simp only [isOutsideNames, List.zip_cons_cons, List.all_cons, Bool.and_eq_true] at hnames
  refine hparent hnames.2 _ (.inside hc (fun hi => ?_) h)
  simpa [hi] using hnames.1

end Occurrence

/-- Grouping is transparent. A node may stand by itself or as the only child of a node that declares
nothing: unless it is a part of a name or a receiver, the file has the same diagnostics and the same
features, up to what the block around a method says about it. -/
theorem wrapping_keeps_features (path : String) (root : Node) (o : Occurrence)
    (identity : Identity) (kind : Kind) (line column : Int) (ho : o ∈ root.places)
    (hnames : o.isOutsideNames = true) (hkind : kind.role = .transparent)
    (hdepth : ∀ a ∈ (o.rebuild ⟨identity, kind, [.node o.node], line, column⟩).places,
      a.depth < Fault.maxDepth) :
    let tree := o.rebuild ⟨identity, kind, [.node o.node], line, column⟩
    (extract path (.node tree)).diagnostics = (extract path (.node root)).diagnostics ∧
      Feature.bareAll (extract path (.node tree)).features =
        Feature.bareAll (extract path (.node root)).features := by
  intro tree
  have hwrapped : root.Wrapped tree :=
    Occurrence.wrapped_rebuild ho hnames (.here o.node identity line column hkind)
  have hlevels' : tree.levels ≤ Fault.maxDepth := by
    have h := Node.levels_le_iff.mpr hdepth
    rwa [List.length_nil, Nat.zero_add] at h
  have hlevels : root.levels ≤ Fault.maxDepth := Nat.le_trans hwrapped.levels_le hlevels'
  have hshallow : ∀ a ∈ root.places, a.depth < Fault.maxDepth :=
    Node.levels_le_iff.mp (by rwa [List.length_nil, Nat.zero_add])
  have hnothing : Scope.Agrees [] [] := ⟨fun a ha => absurd ha List.not_mem_nil, rfl⟩
  have hwalk : (tree.walk path []).bare = (root.walk path []).bare := by
    refine hwrapped.bare_walk hnothing ?_ ?_
    · rwa [List.length_nil, Nat.zero_add]
    · rwa [List.length_nil, Nat.zero_add]
  rw [Extraction.eq_of_isFinished (Node.isFinished_of_shallow path hshallow),
    Extraction.eq_of_isFinished (Node.isFinished_of_shallow path hdepth)]
  constructor
  · rw [← Walk.diagnostics_bare, hwalk, Walk.diagnostics_bare]
  · rw [← Walk.features_bare, hwalk, Walk.features_bare]

/-- The class `A` with the word `private` and a method. -/
def privateMethod : Node :=
  ⟨[0], .classDef, [.node ⟨[1], .constant, [.absent, .name "A"], 1, 0⟩, .absent,
    .node ⟨[2], .group, [
      .node ⟨[3], .call, [.absent, .name "private"], 2, 0⟩,
      .node ⟨[4], .methodDef, [.name "run", .absent, .absent], 3, 0⟩], 2, 0⟩], 1, 0⟩

theorem wrapping_keeps_features_singletonClass :
    ∃ o ∈ privateMethod.places, o.isOutsideNames = true ∧
      let tree := o.rebuild ⟨[5], .singletonClass, [.node o.node], 3, 0⟩
      (∀ a ∈ tree.places, a.depth < Fault.maxDepth) ∧
      (extract "a.rb" (.node privateMethod)).features =
        [.classLike "A" "a.rb:1" [.method ⟨"run", "a.rb:3", "A", false, .priv⟩]] ∧
      (extract "a.rb" (.node tree)).features =
        [.classLike "A" "a.rb:1" [.method ⟨"run", "a.rb:3", "A", true, .pub⟩]] ∧
      (extract "a.rb" (.node tree)).diagnostics =
        (extract "a.rb" (.node privateMethod)).diagnostics ∧
      Feature.bareAll (extract "a.rb" (.node tree)).features =
        Feature.bareAll (extract "a.rb" (.node privateMethod)).features := by
  obtain ⟨o, ho⟩ : ∃ o, privateMethod.places[4]? = some o := ⟨_, rfl⟩
  have hmem := List.mem_of_getElem? ho
  cases ho
  refine ⟨_, hmem, rfl, by decide +kernel, by rfl, by rfl, ?_⟩
  exact wrapping_keeps_features "a.rb" privateMethod _ [5] .singletonClass 3 0 hmem rfl rfl
    (by decide +kernel)

end RubyOutline
