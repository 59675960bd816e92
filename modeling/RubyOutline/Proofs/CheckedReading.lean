import RubyOutline.Proofs.ClassPath
import RubyOutline.Proofs.ConstantChain

namespace RubyOutline

/-- How a checked reading stops: by a fault that it reports, or by reaching for what is not
there. -/
inductive Stop where
  | fault (fault : Fault)
  | outOfRange

namespace Stop

variable {α β : Type}

def reported (reading : Except Fault α) : Except Stop α := reading.mapError .fault

/-- An item that is taken to be there. -/
def taken : Option α → Except Stop α
  | some item => .ok item
  | none => .error .outOfRange

@[simp]
theorem reported_ok (a : α) : reported (.ok a) = .ok a := rfl

theorem reported_bind (reading : Except Fault α) (next : α → Except Fault β) :
    reported (reading >>= next) = reported reading >>= fun a => reported (next a) := by
  cases reading <;> rfl

end Stop

open Stop (reported taken reported_ok reported_bind)

namespace Node

/-- Segments of a constant, where the first child is taken once there is a name behind it. -/
def checkedSegments : (links : Nat) → Node → Except Stop (List String)
  | 0, _ => .error (.fault .chainTooLong)
  | links + 1, n =>
    if n.kind = .constant then do
      let name ← reported (n.nameAt 1)
      match ← taken n.children[0]? with
      | .node scope =>
        if scope.kind = .constant then return (← scope.checkedSegments links) ++ [name]
        else return [name]
      | _ => return [name]
    else .error (.fault (.notConstant (some n)))

def checkedTypeSegments (n : Node) : Except Stop (List String) := do
  match ← reported (n.childAt 0) with
  | .node name => name.checkedSegments maxLinks
  | _ => .error (.fault (.missingConstant n))

/-- The declared name of a class or module, which is taken to be its last segment. -/
def checkedTypeName (n : Node) : Except Stop String := do
  taken (← n.checkedTypeSegments).getLast?

end Node

def Scope.checkedSegments : Scope → Except Stop (List String)
  | [] => .ok []
  | n :: outer => do
    let names ← checkedSegments outer
    if n.kind.isType then return names ++ (← n.checkedTypeSegments) else return names

namespace Node

def checkedMethodClass (n : Node) (scope : Scope) : Except Stop String := do
  if n.kind = .singletonDef then
    match ← reported (n.childAt 0) with
    | .node receiver =>
      if receiver.kind = .selfRef then return Qualified.join (← scope.checkedSegments)
      else if receiver.kind = .constant then
        let names ← scope.checkedSegments
        let segments ← receiver.checkedSegments maxLinks
        return Qualified.join (names.dropLast ++ [← taken segments.getLast?])
      else .error (.fault (.unsupportedReceiver n (.node receiver)))
    | receiver => .error (.fault (.unsupportedReceiver n receiver))
  else return Qualified.join (← scope.checkedSegments)

/-- The visibility that a statement switches to; a call with two children is taken apart into
these. -/
def checkedBareVisibility (n : Node) : Except Stop (Option Visibility) :=
  if n.kind ≠ .call ∨ n.children.length ≠ 2 then .ok none
  else
    match n.children with
    | [.absent, .name selector] => .ok (Visibility.ofLabel? selector)
    | [_, _] => .ok none
    | _ => .error .outOfRange

def checkedVisibility (n : Node) (scope : Scope) : Except Stop Visibility := do
  let found ← (precedingSiblings n scope).reverse.findSomeM? checkedBareVisibility
  return found.getD .pub

def checkedMethod (path : String) (scope : Scope) (n : Node) : Except Stop Method := do
  let name ← reported n.methodName
  let className ← n.checkedMethodClass scope
  let visibility ← n.checkedVisibility scope
  return {
    name
    location := Location.render path n.line
    className
    static := n.kind.role == .staticMethod || scope.isSingleton
    visibility }

theorem checkedSegments_eq (links : Nat) (n : Node) :
    n.checkedSegments links = reported (n.segmentsWithin links) := by
  induction links generalizing n with
  | zero => rfl
  | succ links ih =>
    rw [checkedSegments, segmentsWithin_eq]
    split_ifs with hkind
    · obtain ⟨name, hname, hplace, -⟩ | hname | hname := n.nameAt_cases 1
      · -- a name in the second place has a first place before it
        obtain ⟨first, hfirst⟩ : ∃ first, n.children[0]? = some first := by
          obtain ⟨hlt, -⟩ := List.getElem?_eq_some_iff.mp hplace
          exact ⟨_, List.getElem?_eq_getElem (Nat.lt_trans Nat.zero_lt_one hlt)⟩
        rw [hname, hfirst, constantScope?, List.head?_eq_getElem?, hfirst]
        cases first with
        | absent | name | literal => rfl
        | node scope =>
          simp only [reported_ok, taken, bind, Except.bind, ih]
          by_cases hconstant : scope.kind = .constant
          · rw [if_pos hconstant, if_pos hconstant]
            dsimp only
            cases scope.segmentsWithin links <;> rfl
          · rw [if_neg hconstant, if_neg hconstant]
            rfl
      · rw [hname]
        rfl
      · rw [hname]
        rfl
    · rfl

theorem checkedTypeSegments_eq (n : Node) :
    n.checkedTypeSegments = reported n.typeSegments := by
  rw [checkedTypeSegments, typeSegments, reported_bind]
  congr 1
  funext child
  cases child with
  | absent | name | literal => rfl
  | node name => exact checkedSegments_eq maxLinks name

/-- The last of some segments is there, since there are segments. -/
theorem taken_getLast? {segments : List String} (h : segments ≠ []) :
    taken segments.getLast? = .ok (lastSegment segments) := by
  rw [getLast?_lastSegment h]
  rfl

theorem checkedTypeName_eq (n : Node) : n.checkedTypeName = reported n.typeName := by
  rw [checkedTypeName, checkedTypeSegments_eq, typeName]
  cases hsegments : n.typeSegments with
  | error fault => rfl
  | ok segments => exact taken_getLast? (typeSegments_ne_nil hsegments)

end Node

theorem Scope.checkedSegments_eq (scope : Scope) :
    scope.checkedSegments = reported (Scope.segments scope) := by
  induction scope with
  | nil => rfl
  | cons n outer ih =>
    rw [Scope.checkedSegments, Scope.segments, reported_bind, ih]
    congr 1
    funext names
    rw [Node.checkedTypeSegments_eq]
    split_ifs
    · cases n.typeSegments <;> rfl
    · rfl

namespace Node

theorem checkedMethodClass_eq (n : Node) (scope : Scope) :
    n.checkedMethodClass scope = reported (n.methodClass scope) := by
  rw [checkedMethodClass, methodClass, Scope.checkedSegments_eq]
  split_ifs with hkind
  · rw [reported_bind]
    congr 1
    funext child
    cases child with
    | absent | name | literal => rfl
    | node receiver =>
      dsimp only
      split_ifs with hself hconstant
      · cases Scope.segments scope <;> rfl
      · rw [Node.checkedSegments_eq, reported_bind]
        congr 1
        funext names
        rw [constantSegments, reported_bind]
        cases hsegments : receiver.segmentsWithin maxLinks with
        | error fault => rfl
        | ok segments =>
          have htaken := taken_getLast? (segmentsWithin_ne_nil hsegments)
          simp only [reported_ok, bind, Except.bind, htaken]
          rfl
      · rfl
  · cases Scope.segments scope <;> rfl

theorem checkedBareVisibility_eq (n : Node) :
    n.checkedBareVisibility = .ok n.bareVisibility? := by
  obtain ⟨identity, kind, children, line, column⟩ := n
  cases kind with
  | call =>
    match children with
    | [] => rfl
    | [receiver] => cases receiver <;> rfl
    | [receiver, selector] => cases receiver <;> cases selector <;> rfl
    | _ :: _ :: _ :: _ => simp [checkedBareVisibility, bareVisibility?]
  | _ => rfl

theorem checkedVisibility_eq (n : Node) (scope : Scope) :
    n.checkedVisibility scope = .ok (n.visibilityIn scope) := by
  have hpure : checkedBareVisibility = fun n => pure n.bareVisibility? :=
    funext checkedBareVisibility_eq
  rw [checkedVisibility, hpure, List.findSomeM?_pure]
  rfl

theorem checkedMethod_eq (path : String) (scope : Scope) (n : Node) :
    n.checkedMethod path scope = reported (n.method path scope) := by
  rw [checkedMethod, method, checkedMethodClass_eq, checkedVisibility_eq]
  cases n.methodName with
  | error fault => rfl
  | ok name => cases n.methodClass scope <;> rfl

end Node

end RubyOutline
