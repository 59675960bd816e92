import RubyOutline.Extraction.Builder
import RubyOutline.Proofs.Occurrence

namespace RubyOutline

/-- What a walk comes to for a builder that has recorded some diagnostics before. -/
def Walk.outcome (recorded : List Diagnostic) : Walk → Option (List Feature) × List Diagnostic
  | .finished features diagnostics => (some features, recorded ++ diagnostics)
  | .abandoned diagnostics => (none, recorded ++ diagnostics)

namespace Visit

theorem run_bind {α β : Type} (v : Visit α) (next : α → Visit β) (recorded : List Diagnostic) :
    (v >>= next).run.run recorded =
      match v.run.run recorded with
      | (some found, recorded) => (next found).run.run recorded
      | (none, recorded) => (none, recorded) := by
  rw [OptionT.run_bind, Option.elimM, StateT.run_bind]
  rcases v.run.run recorded with ⟨_ | found, recorded'⟩
  · rfl
  · rfl

/-- A visit and a walk come to the same, whatever is recorded before. -/
def Agrees (v : Visit (List Feature)) (w : Walk) : Prop :=
  ∀ recorded, v.run.run recorded = w.outcome recorded

namespace Agrees

theorem nothing : Agrees (pure []) .empty := by
  intro recorded
  simp only [Walk.outcome, Walk.empty, List.append_nil]
  rfl

theorem record (path : String) (fault : Fault) :
    Agrees (Visit.record path fault) (.finished [] [Diagnostic.ofFault path fault]) := by
  intro recorded
  rfl

theorem andThen {v v' : Visit (List Feature)} {w w' : Walk} (h : Agrees v w) (h' : Agrees v' w') :
    Agrees (do let found ← v; return found ++ (← v')) (w.andThen w') := by
  intro recorded
  rw [run_bind, h]
  cases w with
  | abandoned ds => rfl
  | finished fs ds =>
    simp only [Walk.outcome, run_bind]
    rw [h' (recorded ++ ds)]
    cases w' <;> simp only [Walk.outcome, Walk.andThen, List.append_assoc]
    rfl

theorem method {v : Visit (List Feature)} {w : Walk} (h : Agrees v w) (m : Method) :
    Agrees (do let found ← v; return .method m :: found)
      ((Walk.finished [.method m] []).andThen w) := by
  intro recorded
  rw [run_bind, h]
  cases w <;> rfl

theorem within {v : Visit (List Feature)} {w : Walk} (h : Agrees v w) (name location : String) :
    Agrees (do let found ← v; return [.classLike name location found])
      (w.within name location) := by
  intro recorded
  rw [run_bind, h]
  cases w <;> rfl

theorem ofFault {v : Visit (List Feature)} {w : Walk} (h : Agrees v w) (path : String)
    (fault : Fault) : Agrees (Visit.ofFault path fault v) (Walk.ofFault path fault w) := by
  unfold Visit.ofFault Walk.ofFault
  cases fault.reach with
  | declaration =>
    intro recorded
    rw [run_bind, record path fault, Walk.outcome]
    simp only [h (recorded ++ [Diagnostic.ofFault path fault])]
    cases w <;> simp only [Walk.outcome, Walk.andThen, List.append_assoc, List.nil_append]
  | subtree => exact record path fault
  | file =>
    intro recorded
    simp only [Walk.outcome, List.append_nil]
    rfl

end Agrees

end Visit

namespace Node

theorem visitAll_agrees {path : String} {scope : Scope} {children : List Child}
    (h : ∀ c : Node, .node c ∈ children → Visit.Agrees (c.visit path scope) (c.walk path scope)) :
    Visit.Agrees (visitAll path scope children) (walkAll path scope children) := by
  induction children using Child.listInduction with
  | nil =>
    rw [visitAll, walkAll]
    exact Visit.Agrees.nothing
  | node c rest ih =>
    rw [visitAll, walkAll]
    exact (h c (by simp)).andThen (ih fun d hd => h d (List.mem_cons_of_mem _ hd))
  | skip c rest hc ih =>
    have hrest := ih fun d hd => h d (List.mem_cons_of_mem _ hd)
    cases c with
    | node n => simp [Child.node?] at hc
    | absent | name | literal => simpa only [visitAll, walkAll] using hrest

theorem visit_agrees (path : String) (scope : Scope) (n : Node) :
    Visit.Agrees (n.visit path scope) (n.walk path scope) := by
  induction n using Node.childInduction generalizing scope with
  | step n ih =>
    have hinside : Visit.Agrees (visitAll path (n :: scope) n.children)
        (walkAll path (n :: scope) n.children) :=
      visitAll_agrees fun c hc => ih c hc _
    obtain ⟨identity, kind, children, line, column⟩ := n
    rw [visit, walk]
    split
    · exact Visit.Agrees.record path _
    · cases kind.role with
      | transparent => exact hinside
      | classLike =>
        simp only
        cases Node.typeName ⟨identity, kind, children, line, column⟩ with
        | error fault => exact Visit.Agrees.nothing.ofFault path fault
        | ok name => exact hinside.within name _
      | instanceMethod | staticMethod =>
        simp only
        cases Node.method path scope ⟨identity, kind, children, line, column⟩ with
        | error fault => exact hinside.ofFault path fault
        | ok m => exact hinside.method m

end Node

namespace Builder

/-- What a builder answers is what extraction gives, whatever it has recorded before. -/
theorem build_eq_extract (b : Builder) (root : Child) :
    (b.build root).1 = extract b.path root := by
  cases root with
  | absent | name | literal => rfl
  | node n =>
    rw [build, extract]
    simp only [Node.visit_agrees b.path [] n []]
    cases n.walk b.path [] <;> rfl

end Builder

end RubyOutline
