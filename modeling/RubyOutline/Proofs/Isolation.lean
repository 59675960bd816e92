import RubyOutline.Proofs.Replacement
import RubyOutline.Proofs.WalkListing

namespace RubyOutline

/-- One level of features around a place: those before it, those after it, and the class or module
that holds them, if there is one. -/
structure Surrounding where
  before : List Feature := []
  after : List Feature := []
  holder? : Option (String × String) := none

namespace Surrounding

def fill (s : Surrounding) (run : List Feature) : List Feature :=
  match s.holder? with
  | none => s.before ++ run ++ s.after
  | some (name, location) => [.classLike name location (s.before ++ run ++ s.after)]

/-- A run of features with all that is around it, the innermost level first. -/
def fillAll (around : List Surrounding) (run : List Feature) : List Feature :=
  around.foldl (fun run s => s.fill run) run

end Surrounding

namespace Walk

def features : Walk → List Feature
  | .finished features _ => features
  | .abandoned _ => []

def diagnostics : Walk → List Diagnostic
  | .finished _ diagnostics => diagnostics
  | .abandoned diagnostics => diagnostics

/-- The part of a walk around another: it finishes only if the other does, and then has what the
other has found as one run at a place of its own. -/
def Surrounds (g : Walk → Walk) : Prop :=
  ∃ (around : List Surrounding) (before after : List Diagnostic), ∀ w, (g w).isFinished = true →
    w.isFinished = true ∧ g w = .finished (Surrounding.fillAll around w.features)
      (before ++ w.diagnostics ++ after)

namespace Surrounds

theorem nothing : Surrounds id := by
  refine ⟨[], [], [], fun w hw => ⟨hw, ?_⟩⟩
  cases w with
  | finished fs ds => simp [Surrounding.fillAll, features, diagnostics]
  | abandoned ds => cases hw

theorem comp {f g : Walk → Walk} (hf : Surrounds f) (hg : Surrounds g) : Surrounds (f ∘ g) := by
  obtain ⟨outer, before, after, hf⟩ := hf
  obtain ⟨inner, before', after', hg⟩ := hg
  refine ⟨inner ++ outer, before ++ before', after' ++ after, fun w hw => ?_⟩
  obtain ⟨hfinished, hfill⟩ := hf (g w) hw
  obtain ⟨hw', hfill'⟩ := hg w hfinished
  refine ⟨hw', ?_⟩
  rw [Function.comp_apply, hfill, hfill']
  simp only [features, diagnostics, Surrounding.fillAll, List.foldl_append, List.append_assoc]

theorem between (u v : Walk) : Surrounds fun w => u.andThen (w.andThen v) := by
  refine ⟨[{ before := u.features, after := v.features }], u.diagnostics, v.diagnostics,
    fun w hw => ?_⟩
  cases u with
  | abandoned ds => cases hw
  | finished fs ds =>
    cases w with
    | abandoned es => cases hw
    | finished gs es =>
      cases v with
      | abandoned _ => cases hw
      | finished hs _ =>
        refine ⟨rfl, ?_⟩
        simp only [andThen, features, diagnostics, Surrounding.fillAll, Surrounding.fill,
          List.foldl_cons, List.foldl_nil, List.append_assoc]

theorem after (u : Walk) : Surrounds u.andThen := by
  have h := between u .empty
  simpa only [andThen_empty] using h

theorem within (name location : String) : Surrounds (Walk.within name location) := by
  refine ⟨[{ holder? := some (name, location) }], [], [], fun w hw => ?_⟩
  cases w with
  | abandoned ds => cases hw
  | finished fs ds =>
    refine ⟨rfl, ?_⟩
    simp [Walk.within, features, diagnostics, Surrounding.fillAll, Surrounding.fill]

end Surrounds

/-- What the feature that a node makes by itself does to the walk over its children. -/
def frame : Except (Reach × Diagnostic) (Option Heading) → Walk → Walk
  | .error (.declaration, diagnostic), inside => (Walk.finished [] [diagnostic]).andThen inside
  | .error (.subtree, diagnostic), _ => .finished [] [diagnostic]
  | .error (.file, _), _ => .abandoned []
  | .ok none, inside => inside
  | .ok (some (.classLike name location)), inside => inside.within name location
  | .ok (some (.method m)), inside => (Walk.finished [.method m] []).andThen inside

end Walk

namespace Node

theorem walk_eq_frame (path : String) (scope : Scope) (n : Node) :
    n.walk path scope =
      if Fault.maxDepth ≤ scope.length then
        .finished [] [Diagnostic.ofFault path (.nestedTooDeep n)]
      else Walk.frame (Fault.seen path (n.heading path scope))
        (walkAll path (n :: scope) n.children) := by
  rw [walk_eq]
  split
  · rfl
  · simp only
    cases n.heading path scope with
    | error fault =>
      simp only [Walk.ofFault, Fault.seen, Except.mapError]
      cases fault.reach <;> rfl
    | ok made =>
      cases made with
      | none => rfl
      | some heading => cases heading <;> rfl

/-- A node gives up on its children, or all that is found in them is a part of what it gives. -/
theorem frame_cases (path : String) {scope : Scope} (n : Node) (hresolved : scope.Resolved) :
    (n.isRejected = true ∧ ∃ d, Walk.frame (Fault.seen path (n.heading path scope)) =
        fun _ => .finished [] [d]) ∨
      Walk.frame (Fault.seen path (n.heading path scope)) = (fun _ => .abandoned []) ∨
      n.Entered ∧ Walk.Surrounds (Walk.frame (Fault.seen path (n.heading path scope))) := by
  obtain ⟨groups, -, hsegments⟩ := hresolved.segments
  have hdeclared := heading_name hsegments path n
  cases hheading : n.heading path scope with
  | error fault =>
    rw [hheading, Except.map] at hdeclared
    rw [Fault.seen, Except.mapError]
    cases hreach : fault.reach with
    | declaration =>
      refine .inr (.inr ⟨?_, Walk.Surrounds.after _⟩)
      intro e he
      rw [← hdeclared] at he
      cases he
      exact hreach
    | subtree =>
      refine .inl ⟨?_, _, rfl⟩
      rw [isRejected_of_error hdeclared.symm, hreach]
      rfl
    | file => exact .inr (.inl rfl)
  | ok made =>
    have hentered : n.Entered := by
      intro e he
      rw [← hdeclared, hheading] at he
      cases he
    refine .inr (.inr ⟨hentered, ?_⟩)
    cases made with
    | none => exact Walk.Surrounds.nothing
    | some heading =>
      cases heading with
      | classLike name location => exact Walk.Surrounds.within name location
      | method m => exact Walk.Surrounds.after _

theorem frame_congr {path : String} {scope : Scope} {n : Node} (hresolved : scope.Resolved)
    {w w' : Walk} (h : n.Entered → w = w') :
    Walk.frame (Fault.seen path (n.heading path scope)) w =
      Walk.frame (Fault.seen path (n.heading path scope)) w' := by
  rcases frame_cases path n hresolved with ⟨-, d, hframe⟩ | hframe | ⟨hentered, -⟩
  · rw [hframe]
  · rw [hframe]
  · rw [h hentered]

theorem walkAll_append (path : String) (scope : Scope) (cs ds : List Child) :
    walkAll path scope (cs ++ ds) = (walkAll path scope cs).andThen (walkAll path scope ds) := by
  induction cs using Child.listInduction with
  | nil => rw [List.nil_append, walkAll, Walk.empty_andThen]
  | node n rest ih => rw [List.cons_append, walkAll, walkAll, ih, Walk.andThen_assoc]
  | skip c rest hc ih => rw [List.cons_append, walkAll_skip _ _ hc, walkAll_skip _ _ hc, ih]

theorem walkAll_congr {path : String} {s s' : Scope} {children : List Child}
    (h : ∀ c : Node, .node c ∈ children → c.walk path s' = c.walk path s) :
    walkAll path s' children = walkAll path s children := by
  induction children using Child.listInduction with
  | nil => rw [walkAll, walkAll]
  | node c rest ih =>
    rw [walkAll, walkAll, h c (by simp), ih fun d hd => h d (List.mem_cons_of_mem _ hd)]
  | skip c rest hc ih =>
    rw [walkAll_skip _ _ hc, walkAll_skip _ _ hc, ih fun d hd => h d (List.mem_cons_of_mem _ hd)]

theorem Entered.resolved {n : Node} {scope : Scope} (h : n.Entered) (hscope : scope.Resolved) :
    Scope.Resolved (n :: scope) := by
  intro a ha hkind
  rcases List.mem_cons.mp ha with rfl | ha
  · exact h.typeSegments hkind
  · exact hscope a ha hkind

/-- A walk does not tell scopes of alike nodes apart. -/
theorem walk_alike {path : String} {s s' : Scope} (n : Node)
    (hscope : List.Forall₂ Node.Alike s s') (hresolved : s.Resolved)
    (hvisibility : n.visibilityIn s' = n.visibilityIn s) : n.walk path s' = n.walk path s := by
  induction n using Node.childInduction generalizing s s' with
  | step n ih =>
    have hheading : Fault.seen path (n.heading path s') = Fault.seen path (n.heading path s) :=
      (Alike.refl n).seen_heading hscope hresolved hvisibility
    rw [walk_eq_frame, walk_eq_frame, hscope.length_eq, hheading]
    split
    · rfl
    · refine frame_congr hresolved fun hentered => walkAll_congr fun c hc => ?_
      exact ih c hc (.cons (.refl n) hscope) (hentered.resolved hresolved) rfl

theorem Alike.walk_eq_frame {path : String} {s s' : Scope} {n n' : Node} (h : n.Alike n')
    (hscope : List.Forall₂ Node.Alike s s') (hresolved : s.Resolved)
    (hvisibility : n'.visibilityIn s' = n.visibilityIn s) (hdepth : s.length < Fault.maxDepth) :
    n'.walk path s' = Walk.frame (Fault.seen path (n.heading path s))
      (walkAll path (n' :: s') n'.children) := by
  have hlimit : ¬Fault.maxDepth ≤ s'.length := by
    rw [← hscope.length_eq]
    exact Nat.not_le.mpr hdepth
  rw [Node.walk_eq_frame, if_neg hlimit, h.seen_heading hscope hresolved hvisibility]

theorem Alike.walk_eq_of_deep {path : String} {s s' : Scope} {n n' : Node} (h : n.Alike n')
    (hscope : List.Forall₂ Node.Alike s s') (hdepth : Fault.maxDepth ≤ s.length) :
    n'.walk path s' = n.walk path s := by
  rw [Node.walk_eq_frame, Node.walk_eq_frame, ← hscope.length_eq, if_pos hdepth, if_pos hdepth]
  obtain ⟨children, rfl⟩ := h.eq_withChildren
  rfl

/-- The walk over a node with another child, when those beside that child take no notice. -/
theorem walk_withChild {path : String} {s s' : Scope} {n : Node} {i : Nat} {c : Child}
    (hlt : i < n.children.length) (halike : n.Alike (n.withChild i c))
    (hscope : List.Forall₂ Node.Alike s s') (hresolved : s.Resolved)
    (hvisibility : (n.withChild i c).visibilityIn s' = n.visibilityIn s)
    (hbeside : ∀ m : Node, .node m ∈ n.children.eraseIdx i →
      m.visibilityIn (n.withChild i c :: s') = m.visibilityIn (n :: s))
    (hdepth : s.length < Fault.maxDepth) :
    (n.withChild i c).walk path s' = Walk.frame (Fault.seen path (n.heading path s))
      ((walkAll path (n :: s) (n.children.take i)).andThen
        ((walkAll path (n.withChild i c :: s') [c]).andThen
          (walkAll path (n :: s) (n.children.drop (i + 1))))) := by
  rw [halike.walk_eq_frame hscope hresolved hvisibility hdepth]
  refine frame_congr hresolved fun hentered => ?_
  have hsibling : ∀ m : Node, .node m ∈ n.children.take i ++ n.children.drop (i + 1) →
      m.walk path (n.withChild i c :: s') = m.walk path (n :: s) := by
    intro m hm
    rw [← List.eraseIdx_eq_take_drop_succ] at hm
    exact walk_alike m (.cons halike hscope) (hentered.resolved hresolved) (hbeside m hm)
  have hchildren : (n.withChild i c).children =
      n.children.take i ++ ([c] ++ n.children.drop (i + 1)) := by
    rw [withChild, List.set_eq_take_append_cons_drop, if_pos hlt]
    rfl
  rw [hchildren, walkAll_append, walkAll_append,
    walkAll_congr fun m hm => hsibling m (List.mem_append_left _ hm),
    walkAll_congr fun m hm => hsibling m (List.mem_append_right _ hm)]

end Node

/-- The walk gets to what stands in a scope: nothing there is malformed, and it is not too deep. -/
def Scope.isOpen (scope : Scope) : Bool :=
  scope.length ≤ Fault.maxDepth && scope.all (!·.isRejected)

namespace Scope

theorem isOpen_iff {scope : Scope} : scope.isOpen = true ↔
    scope.length ≤ Fault.maxDepth ∧ ∀ a ∈ scope, a.isRejected = false := by
  simp [isOpen]

theorem isOpen_of_cons {n : Node} {scope : Scope} (h : Scope.isOpen (n :: scope) = true) :
    scope.isOpen = true := by
  obtain ⟨hdepth, hscope⟩ := isOpen_iff.mp h
  rw [List.length_cons] at hdepth
  exact isOpen_iff.mpr ⟨by omega, fun a ha => hscope a (List.mem_cons_of_mem _ ha)⟩

theorem isOpen_alike {s s' : Scope} (h : List.Forall₂ Node.Alike s s') : s'.isOpen = s.isOpen := by
  have hall : s'.all (!·.isRejected) = s.all (!·.isRejected) := by
    induction h with
    | nil => rfl
    | cons hn _ ih => rw [List.all_cons, List.all_cons, hn.isRejected, ih]
  rw [isOpen, isOpen, h.length_eq, hall]

end Scope

namespace Occurrence

variable {path : String} {root : Node} {o : Occurrence}

theorem visibilityIn_holding (ho : o ∈ root.places) {n : Node} (h : o.node.Alike n) :
    n.visibilityIn (o.holding n) = o.node.visibilityIn o.scope := by
  obtain rfl | ⟨i, parent, -, hchild, hway, hscope⟩ := Node.places_parent ho
  · rfl
  · rw [holding, hway, hscope, Scope.holding]
    exact h.visibilityIn_inside h hchild

/-- The walk gets to a place, and all else that it does surrounds the walk over what stands
there. -/
def Reached (path : String) (o : Occurrence) : Prop :=
  o.scope.Resolved ∧ o.scope.isOpen = true ∧ ∃ g, Walk.Surrounds g ∧ ∀ n, o.node.Alike n →
    (o.rebuild n).walk path [] = g (n.walk path (o.holding n))

/-- The walk does not get to the children of a place: they make no difference, and if the walk
finishes at all then because it is not meant to get there. -/
def Closed (path : String) (root : Node) (o : Occurrence) : Prop :=
  (∀ n, o.node.Alike n → (o.rebuild n).walk path [] = root.walk path []) ∧
    ((root.walk path []).isFinished = true → Scope.isOpen (o.node :: o.scope) = false)

/-- The walk gets to the child at a position of a place. What stands there makes no difference to
the rest as long as those beside it take no notice. -/
def OpenAt (path : String) (o : Occurrence) (i : Nat) : Prop :=
  Scope.Resolved (o.node :: o.scope) ∧ Scope.isOpen (o.node :: o.scope) = true ∧
    ∃ g, Walk.Surrounds g ∧ ∀ c, o.node.Alike (o.node.withChild i c) →
      (∀ m : Node, .node m ∈ o.node.children.eraseIdx i →
        m.visibilityIn (o.node.withChild i c :: o.holding (o.node.withChild i c)) =
          m.visibilityIn (o.node :: o.scope)) →
      (o.rebuild (o.node.withChild i c)).walk path [] = g (Node.walkAll path
        (o.node.withChild i c :: o.holding (o.node.withChild i c)) [c])

theorem Closed.child (h : o.Closed path root) {i : Nat} {c : Node}
    (hc : o.node.children[i]? = some (.node c)) :
    Closed path root ⟨i :: o.way, o.node :: o.scope, c⟩ := by
  refine ⟨fun n hn => h.1 _ (.inside hc hn), fun hfinished => ?_⟩
  rw [← Bool.not_eq_true]
  intro hopen
  have hscope := Scope.isOpen_of_cons hopen
  rw [h.2 hfinished] at hscope
  cases hscope

theorem OpenAt.child {i : Nat} (h : o.OpenAt path i) {c : Node}
    (hc : o.node.children[i]? = some (.node c)) :
    Reached path ⟨i :: o.way, o.node :: o.scope, c⟩ := by
  obtain ⟨hresolved, hopen, g, hg, hwalk⟩ := h
  refine ⟨hresolved, hopen, g, hg, fun n hn => ?_⟩
  have hchild := hwalk (.node n) (.inside hc hn) fun m _ =>
    (Node.Alike.refl m).visibilityIn_inside hn hc
  rw [Node.walkAll, Node.walkAll, Walk.andThen_empty] at hchild
  exact hchild

/-- A node that is not given up lets the walk get to each of its children. -/
theorem Reached.openAt (h : o.Reached path) (ho : o ∈ root.places)
    (hdepth : o.scope.length < Fault.maxDepth) (hentered : o.node.Entered)
    (hframe : Walk.Surrounds (Walk.frame (Fault.seen path (o.node.heading path o.scope))))
    {i : Nat} (hi : i < o.node.children.length) : o.OpenAt path i := by
  obtain ⟨hresolved, hopen, g, hg, hwalk⟩ := h
  refine ⟨hentered.resolved hresolved, ?_, ?_⟩
  · obtain ⟨-, hall⟩ := Scope.isOpen_iff.mp hopen
    refine Scope.isOpen_iff.mpr ⟨hdepth, ?_⟩
    exact List.forall_mem_cons.mpr ⟨hentered.isRejected, hall⟩
  · have hbetween := Walk.Surrounds.between
      (Node.walkAll path (o.node :: o.scope) (o.node.children.take i))
      (Node.walkAll path (o.node :: o.scope) (o.node.children.drop (i + 1)))
    refine ⟨_, (hg.comp hframe).comp hbetween, fun c hc hbeside => ?_⟩
    rw [hwalk _ hc, Node.walk_withChild hi hc (holding_alike ho hc) hresolved
      (visibilityIn_holding ho hc) hbeside hdepth]
    rfl

/-- From a place to its children: the walk gets to none of them or to all. -/
theorem Reached.cases (h : o.Reached path) (ho : o ∈ root.places) :
    o.Closed path root ∨ ∀ i < o.node.children.length, o.OpenAt path i := by
  have hopenAt := h.openAt ho
  obtain ⟨hresolved, hopen, g, hg, hwalk⟩ := h
  have hroot : root.walk path [] = g (o.node.walk path o.scope) := by
    obtain ⟨hrebuild, hholding⟩ := rebuild_self ho
    rw [← hholding, ← hwalk _ (.refl _), hrebuild]
  have hclosed (hsame : ∀ n, o.node.Alike n →
      n.walk path (o.holding n) = o.node.walk path o.scope) :
      ∀ n, o.node.Alike n → (o.rebuild n).walk path [] = root.walk path [] := by
    intro n hn
    rw [hwalk n hn, hroot, hsame n hn]
  -- too deep a node and a malformed one close the place; so does one that ends the whole walk,
  -- but then the walk over the file does not finish
  by_cases hdepth : o.scope.length < Fault.maxDepth
  · have hframed (n : Node) (hn : o.node.Alike n) : n.walk path (o.holding n) =
        Walk.frame (Fault.seen path (o.node.heading path o.scope))
          (Node.walkAll path (n :: o.holding n) n.children) :=
      hn.walk_eq_frame (holding_alike ho hn) hresolved (visibilityIn_holding ho hn) hdepth
    have hself : o.node.walk path o.scope = Walk.frame (Fault.seen path
        (o.node.heading path o.scope)) (Node.walkAll path (o.node :: o.scope) o.node.children) := by
      rw [Node.walk_eq_frame, if_neg (Nat.not_le.mpr hdepth)]
    rcases Node.frame_cases path o.node hresolved with
      ⟨hrejected, d, hframe⟩ | hframe | ⟨hentered, hframe⟩
    · refine .inl ⟨hclosed fun n hn => by rw [hframed n hn, hself, hframe], fun _ => ?_⟩
      rw [← Bool.not_eq_true, Scope.isOpen_iff]
      rintro ⟨-, hall⟩
      rw [hall o.node (by simp)] at hrejected
      cases hrejected
    · refine .inl ⟨hclosed fun n hn => by rw [hframed n hn, hself, hframe], fun hfinished => ?_⟩
      obtain ⟨around, before, after, hg⟩ := hg
      rw [hroot, hself, hframe] at hfinished
      cases (hg _ hfinished).1
    · exact .inr fun i hi => hopenAt hdepth hentered hframe hi
  · have hlimit := Nat.not_lt.mp hdepth
    refine .inl ⟨hclosed fun n hn => hn.walk_eq_of_deep (holding_alike ho hn) hlimit, fun _ => ?_⟩
    rw [← Bool.not_eq_true, Scope.isOpen_iff, List.length_cons]
    rintro ⟨hlength, -⟩
    omega

/-- At every place of a tree the walk gets to no child, or to all and then nothing else changes with
what stands there. -/
theorem closed_or_openAt (path : String) (ho : o ∈ root.places) :
    o.Closed path root ∨ ∀ i < o.node.children.length, o.OpenAt path i := by
  have hreached : o.Closed path root ∨ o.Reached path := by
    refine Node.occurrences_induction (P := fun o => o.Closed path root ∨ o.Reached path) ?_
      (fun parent hparent ih i c hc => ?_) o ho
    · refine .inr ⟨by simp [Scope.Resolved], rfl, id, Walk.Surrounds.nothing, fun n hn => rfl⟩
    · obtain ⟨hlt, -⟩ := List.getElem?_eq_some_iff.mp hc
      rcases ih with hclosed | hreached
      · exact .inl (hclosed.child hc)
      · rcases hreached.cases hparent with hclosed | hopen
        · exact .inl (hclosed.child hc)
        · exact .inr ((hopen i hlt).child hc)
  rcases hreached with hclosed | hreached
  · exact .inl hclosed
  · exact hreached.cases ho

end Occurrence

/-- What the walk finds in a child, given the nodes around it; nothing where it does not get to. -/
def Child.found (path : String) (scope : Scope) (c : Child) : Walk :=
  if scope.isOpen then Node.walkAll path scope [c] else .empty

/-- Those beside a statement of a group look for themselves and for visibility statements, so they
take no notice of a new node that is none. -/
theorem Occurrence.visibilityIn_beside {root : Node} {o : Occurrence} {i : Nat} {x : Child}
    {y m : Node} (hdistinct : (root.places.map (·.node.identity)).Nodup) (ho : o ∈ root.places)
    (hx : o.node.children[i]? = some x) (hxswitch : x.switch? = none)
    (hyswitch : Child.switch? (.node y) = none)
    (hfresh : ∀ a ∈ root.places, a.node.identity ≠ y.identity)
    (hm : .node m ∈ o.node.children.eraseIdx i) (scope : Scope) :
    m.visibilityIn (o.node.withChild i (.node y) :: scope) =
      m.visibilityIn (o.node :: o.scope) := by
  obtain ⟨j, hne, hj⟩ := List.mem_eraseIdx_iff_getElem?.mp hm
  have hplace := Node.places_step ho hj
  have hy : Child.isSame m (.node y) = false := by
    rw [Child.isSame, beq_eq_false_iff_ne]
    exact (hfresh _ hplace).symm
  have hsame : Child.isSame m x = false := by
    cases x with
    | absent | name | literal => rfl
    | node x =>
      rw [Child.isSame, beq_eq_false_iff_ne]
      intro hidentity
      have heq := List.inj_on_of_nodup_map hdistinct (Node.places_step ho hx) hplace hidentity
      have hway := congrArg Occurrence.way heq
      exact hne (List.cons.inj hway).1.symm
  refine Node.visibilityIn_congr ?_ ?_
  · exact map_set_of_eq hx (hy.trans hsame.symm)
  · exact map_set_of_eq hx (hyswitch.trans hxswitch.symm)

namespace Extraction

theorem eq_of_isFinished {path : String} {root : Node}
    (h : (root.walk path []).isFinished = true) : extract path (.node root) =
      ⟨(root.walk path []).features, (root.walk path []).diagnostics⟩ := by
  rw [extract]
  cases hw : root.walk path [] with
  | finished fs ds => rfl
  | abandoned ds =>
    rw [hw] at h
    cases h

/-- A walk that does not finish leaves no feature of the file, and says so in the end. -/
theorem eq_of_overflow {path : String} {root : Node} (h : ∃ a ∈ root.visited, a.overflows = true) :
    extract path (.node root) = ⟨[], (root.walk path []).diagnostics ++
      [Diagnostic.ofFault path (.untraversable root)]⟩ := by
  obtain ⟨a, ha, hover⟩ := h
  rw [extract]
  cases hw : root.walk path [] with
  | finished fs ds =>
    have hfinished : (root.walk path []).isFinished = true := by
      rw [hw]
      rfl
    rw [(root.isFinished_walk_iff path).mp hfinished a ha] at hover
    cases hover
  | abandoned ds => rfl

end Extraction

/-- A statement of a group costs only itself. For every statement of every group there is one place
among the features and one among the diagnostics of the file that holds all that is found in the
statement. When another node stands there, what is found in that node is at the same two places,
and all else is as before. The one exception is a file that has a chain of constants which is too
long: it keeps no feature at all. -/
theorem replaced_statement_costs_itself (path : String) (root : Node) (o : Occurrence) (i : Nat)
    (x : Child) (hdistinct : (root.places.map (·.node.identity)).Nodup) (ho : o ∈ root.places)
    (hgroup : o.node.kind = .group) (hx : o.node.children[i]? = some x)
    (hxswitch : x.switch? = none) :
    ∃ (around : List Surrounding) (before after : List Diagnostic),
      ((∀ a ∈ root.visited, a.overflows = false) →
        let found := x.found path (o.node :: o.scope)
        extract path (.node root) = ⟨Surrounding.fillAll around found.features,
          before ++ found.diagnostics ++ after⟩) ∧
      ∀ y : Node, Child.switch? (.node y) = none →
        (∀ a ∈ root.places, a.node.identity ≠ y.identity) →
        let changed := o.node.withChild i (.node y)
        let tree := o.rebuild changed
        let found := (Child.node y).found path (changed :: o.holding changed)
        ((∀ a ∈ tree.visited, a.overflows = false) →
          extract path (.node tree) = ⟨Surrounding.fillAll around found.features,
            before ++ found.diagnostics ++ after⟩) ∧
        ((∃ a ∈ tree.visited, a.overflows = true) →
          extract path (.node tree) = ⟨[], (tree.walk path []).diagnostics ++
            [Diagnostic.ofFault path (.untraversable tree)]⟩) := by
  obtain ⟨hlt, -⟩ := List.getElem?_eq_some_iff.mp hx
  have halike (c : Child) : o.node.Alike (o.node.withChild i c) := .group hgroup i c
  have hscope (c : Child) :
      Scope.isOpen (o.node.withChild i c :: o.holding (o.node.withChild i c)) =
        Scope.isOpen (o.node :: o.scope) :=
    Scope.isOpen_alike (.cons (halike c) (Occurrence.holding_alike ho (halike c)))
  rcases Occurrence.closed_or_openAt path ho with ⟨hsame, hclosed⟩ | hopen
  -- the walk never gets there: nothing is found in the statement, wherever that nothing is put
  · refine ⟨[{ before := (root.walk path []).features }], (root.walk path []).diagnostics, [],
      fun hno => ?_, fun y _ _ => ⟨fun hno => ?_, Extraction.eq_of_overflow⟩⟩
    · have hfinished := (root.isFinished_walk_iff path).mpr hno
      simp only [Child.found, hclosed hfinished, Extraction.eq_of_isFinished hfinished]
      simp [Surrounding.fillAll, Surrounding.fill, Walk.empty, Walk.features, Walk.diagnostics]
    · have hfinished := (Node.isFinished_walk_iff path _).mpr hno
      rw [Extraction.eq_of_isFinished hfinished, hsame _ (halike _)]
      rw [hsame _ (halike _)] at hfinished
      simp only [Child.found, hscope, hclosed hfinished]
      simp [Surrounding.fillAll, Surrounding.fill, Walk.empty, Walk.features, Walk.diagnostics]
  · obtain ⟨-, hopen, g, ⟨around, before, after, hg⟩, hwalk⟩ := hopen i hlt
    refine ⟨around, before, after, fun hno => ?_,
      fun y hyswitch hfresh => ⟨fun hno => ?_, Extraction.eq_of_overflow⟩⟩
    · have hfinished := (root.isFinished_walk_iff path).mpr hno
      have hroot := hwalk x (halike x)
      rw [Node.withChild_self hx, (Occurrence.rebuild_self ho).1,
        (Occurrence.rebuild_self ho).2] at hroot
      replace hroot := hroot fun m _ => rfl
      rw [Extraction.eq_of_isFinished hfinished]
      rw [hroot] at hfinished ⊢
      rw [(hg _ hfinished).2, Child.found, hopen]
      rfl
    · have hfinished := (Node.isFinished_walk_iff path _).mpr hno
      have htree := hwalk (.node y) (halike _) fun m hm =>
        Occurrence.visibilityIn_beside hdistinct ho hx hxswitch hyswitch hfresh hm _
      rw [Extraction.eq_of_isFinished hfinished]
      rw [htree] at hfinished ⊢
      rw [(hg _ hfinished).2, Child.found, hscope, hopen]
      rfl

/-- The class `Main` with a method, a method on an unknown receiver, the word `private` and one more
method. -/
def unknownReceiver : Node :=
  let receiver : Node := ⟨[5], .call, [.absent, .name "x"], 3, 0⟩
  ⟨[0], .classDef, [.node ⟨[1], .constant, [.absent, .name "Main"], 1, 0⟩, .absent,
    .node ⟨[2], .group, [
      .node ⟨[3], .methodDef, [.name "first", .absent, .absent], 2, 0⟩,
      .node ⟨[4], .singletonDef, [.node receiver, .name "go", .absent, .absent], 3, 0⟩,
      .node ⟨[6], .call, [.absent, .name "private"], 4, 0⟩,
      .node ⟨[7], .methodDef, [.name "last", .absent, .absent], 5, 0⟩], 2, 0⟩], 1, 0⟩

/-- A class without a name, with a method in it. -/
def namelessClass : Node :=
  ⟨[8], .classDef, [.absent, .absent,
    .node ⟨[9], .methodDef, [.name "lost", .absent, .absent], 4, 0⟩], 3, 0⟩

theorem replaced_statement_costs_itself_namelessClass :
    ∃ o ∈ unknownReceiver.places, o.node.kind = .group ∧
      (unknownReceiver.places.map (·.node.identity)).Nodup ∧
      ∃ x, o.node.children[1]? = some x ∧ x.switch? = none ∧
        let changed := o.node.withChild 1 (.node namelessClass)
        (∀ a ∈ (o.rebuild changed).visited, a.overflows = false) ∧
        ∃ (around : List Surrounding) (before after : List Diagnostic),
          (extract "a.rb" (.node unknownReceiver)).features = Surrounding.fillAll around
            (x.found "a.rb" (o.node :: o.scope)).features ∧
          extract "a.rb" (.node (o.rebuild changed)) =
            let found := (Child.node namelessClass).found "a.rb" (changed :: o.holding changed)
            ⟨Surrounding.fillAll around found.features, before ++ found.diagnostics ++ after⟩ := by
  obtain ⟨o, ho⟩ : ∃ o, unknownReceiver.places[2]? = some o := ⟨_, rfl⟩
  have hmem := List.mem_of_getElem? ho
  cases ho
  have hdistinct : (unknownReceiver.places.map (·.node.identity)).Nodup := by decide
  refine ⟨_, hmem, rfl, hdistinct, _, rfl, rfl, by decide +kernel, ?_⟩
  obtain ⟨around, before, after, hroot, hchanged⟩ :=
    replaced_statement_costs_itself "a.rb" unknownReceiver _ 1 _ hdistinct hmem rfl rfl rfl
  refine ⟨around, before, after, ?_, ?_⟩
  · rw [hroot (by decide +kernel)]
  · exact (hchanged namelessClass rfl (by decide)).1 (by decide +kernel)

/-- What stands around a run is there whatever the run. -/
theorem Surrounding.length_fillAll_le {run run' : List Feature} (around : List Surrounding)
    (h : run.length ≤ run'.length) :
    (fillAll around run).length ≤ (fillAll around run').length := by
  induction around generalizing run run' with
  | nil => exact h
  | cons s around ih =>
    refine ih ?_
    simp only [fill]
    cases s.holder? with
    | none =>
      simp only [List.length_append]
      omega
    | some holder => exact Nat.le_refl 1

/-- A chain of constants: a number of them in front of the last one. -/
def constantChain : Nat → Node
  | 0 => Node.constantNode [0, 3] "A" .absent 2
  | links + 1 => Node.constantNode [links + 1, 3] "A" (.node (constantChain links)) 2

theorem constantChain_kind (links : Nat) : (constantChain links).kind = .constant := by
  cases links <;> rfl

theorem segmentsWithin_constantChain {limit links : Nat} (h : limit ≤ links) :
    (constantChain links).segmentsWithin limit = .error .chainTooLong := by
  induction limit generalizing links with
  | zero => rfl
  | succ limit ih =>
    cases links with
    | zero => omega
    | succ links =>
      have hscope : (constantChain (links + 1)).constantScope? = some (constantChain links) := by
        rw [constantChain, Node.constantNode, Node.constantScope?]
        simp only [List.head?_cons, constantChain_kind, if_true]
      have hname : (constantChain (links + 1)).nameAt 1 = .ok "A" := rfl
      rw [Node.segmentsWithin, if_pos (constantChain_kind _), hname, hscope]
      simp only [bind, Except.bind, ih (Nat.le_of_succ_le_succ h)]

theorem identity_of_constantChain {links : Nat} {way : List Nat} {scope : Scope} {a : Occurrence}
    (h : a ∈ (constantChain links).occurrences way scope) : a.node.identity.length = 2 := by
  induction links generalizing way scope with
  | zero =>
    rw [Node.mem_occurrences] at h
    rcases h with rfl | ⟨i, c, hc, ha⟩
    · rfl
    · rcases i with _ | _ | i <;> simp [constantChain, Node.constantNode] at hc
  | succ links ih =>
    rw [Node.mem_occurrences] at h
    rcases h with rfl | ⟨i, c, hc, ha⟩
    · rfl
    · rcases i with _ | _ | i <;> simp [constantChain, Node.constantNode] at hc
      subst hc
      exact ih ha

/-- A class that is named by a chain of constants. -/
def chainClass (links : Nat) : Node :=
  ⟨[0, 4], .classDef, [.node (constantChain links), .absent, .absent], 2, 0⟩

theorem chainClass_declared {links : Nat} (h : maxLinks ≤ links) :
    (chainClass links).declared = .error .chainTooLong := by
  have hname : (chainClass links).typeSegments = .error .chainTooLong :=
    segmentsWithin_constantChain h
  rw [Node.declared_of_isType rfl, Node.typeName, hname]
  rfl

theorem identity_of_chainClass {links : Nat} {a : Occurrence} (h : a ∈ (chainClass links).places) :
    a.node.identity.length = 2 := by
  rcases Node.mem_occurrences.mp h with rfl | ⟨i, c, hc, ha⟩
  · rfl
  · rcases i with _ | _ | _ | i <;> simp [chainClass] at hc
    subst hc
    exact identity_of_constantChain ha

/-- A method and a statement that declares nothing. -/
def methodAndOther : Node :=
  ⟨[0], .group, [.node ⟨[1], .methodDef, [.name "kept", .absent, .absent], 1, 0⟩,
    .node ⟨[2], .other, [], 2, 0⟩], 1, 0⟩

/-- The same method and a class that is named by a chain of constants. -/
def methodAndChain (links : Nat) : Node := methodAndOther.withChild 1 (.node (chainClass links))

theorem methodAndChain_features {links : Nat} (h : maxLinks ≤ links) :
    (extract "a.rb" (.node (methodAndChain links))).features = [] := by
  have hplace : ⟨[1], [methodAndChain links], chainClass links⟩ ∈ (methodAndChain links).places :=
    Node.mem_occurrences.mpr (.inr ⟨1, _, rfl, Node.mem_occurrences.mpr (.inl rfl)⟩)
  have hover : Occurrence.overflows ⟨[1], [methodAndChain links], chainClass links⟩ = true := by
    have hdeclared : Occurrence.declared ⟨[1], [methodAndChain links], chainClass links⟩ =
        .error .chainTooLong := chainClass_declared h
    rw [Occurrence.overflows, Occurrence.fault?, hdeclared]
    rfl
  rw [Extraction.eq_of_overflow ⟨_, List.mem_filter.mpr ⟨hplace, rfl⟩, hover⟩]

/-- A class with too long a name takes the method beside it along: the file without the class has
that method, and no run of features put in one place gives the file with the class. -/
theorem long_chain_costs_the_file :
    let o : Occurrence := ⟨[], [], methodAndOther⟩
    let x : Child := .node ⟨[2], .other, [], 2, 0⟩
    let tree := o.rebuild (methodAndOther.withChild 1 (.node (chainClass 5000)))
    o ∈ methodAndOther.places ∧ (methodAndOther.places.map (·.node.identity)).Nodup ∧
    methodAndOther.kind = .group ∧ methodAndOther.children[1]? = some x ∧ x.switch? = none ∧
    Child.switch? (.node (chainClass 5000)) = none ∧
    (∀ a ∈ (chainClass 5000).places, ∀ b ∈ methodAndOther.places,
      a.node.identity ≠ b.node.identity) ∧
    (x.found "a.rb" [methodAndOther]).features = [] ∧
    ¬∃ (around : List Surrounding) (run : List Feature),
      (extract "a.rb" (.node methodAndOther)).features = Surrounding.fillAll around [] ∧
      (extract "a.rb" (.node tree)).features = Surrounding.fillAll around run := by
  refine ⟨Node.mem_occurrences.mpr (.inl rfl), by decide, rfl, rfl, rfl, rfl, ?_, rfl, ?_⟩
  · intro a ha b hb heq
    have hlength := identity_of_chainClass ha
    have hshort : ∀ b ∈ methodAndOther.places, b.node.identity.length = 1 := by decide
    rw [heq, hshort b hb] at hlength
    cases hlength
  · rintro ⟨around, run, hroot, htree⟩
    replace htree : [] = Surrounding.fillAll around run :=
      (@methodAndChain_features 5000 (by decide)).symm.trans htree
    have hle : (Surrounding.fillAll around []).length ≤ (Surrounding.fillAll around run).length :=
      Surrounding.length_fillAll_le around (Nat.zero_le _)
    rw [← hroot, ← htree] at hle
    exact absurd hle (by decide)

end RubyOutline
