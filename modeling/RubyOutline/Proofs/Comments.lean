import RubyOutline.Proofs.Recast

namespace RubyOutline

namespace ParseTree

mutual

/-- The parse tree without those comments inside it that are chosen by their paths and fill no
field; `path` is the path of the parse tree itself. -/
def withoutComments (chosen : Identity → Bool) (path : Identity) : ParseTree → ParseTree
  | ⟨type, start, stop, row, column, named, missing, field, children⟩ =>
    ⟨type, start, stop, row, column, named, missing, field,
      withoutCommentsAll chosen path 0 children⟩

def withoutCommentsAll (chosen : Identity → Bool) (path : Identity) :
    (index : Nat) → List ParseTree → List ParseTree
  | _, [] => []
  | index, t :: rest =>
    let others := withoutCommentsAll chosen path (index + 1) rest
    if t.isComment && t.field.isNone && chosen (index :: path) then others
    else t.withoutComments chosen (index :: path) :: others

end

variable {source : List UInt8} {chosen : Identity → Bool}

theorem withoutComments_eq (path : Identity) (t : ParseTree) :
    t.withoutComments chosen path =
      { t with children := withoutCommentsAll chosen path 0 t.children } := by
  obtain ⟨type, start, stop, row, column, named, missing, field, children⟩ := t
  rw [withoutComments]

/-- What holds between the remaining children and those they come from. -/
theorem edited_withoutCommentsAll {R : ParseTree → ParseTree → Prop} {trees : List ParseTree}
    (h : ∀ t ∈ trees, ∀ path, R t (t.withoutComments chosen path)) (path : Identity)
    (index : Nat) : Edited R trees (withoutCommentsAll chosen path index trees) := by
  induction trees generalizing index with
  | nil => exact .nil
  | cons t rest ih =>
    have hrest := ih (fun u hu => h u (List.mem_cons_of_mem _ hu)) (index + 1)
    rw [withoutCommentsAll]
    split
    · rename_i hdrop
      simp only [Bool.and_eq_true, Option.isNone_iff_eq_none] at hdrop
      exact .drop hdrop.1.1 hdrop.1.2 hrest
    · exact .keep (h t List.mem_cons_self (index :: path)) hrest

/-- A parse tree without comments is recast, and so is what stands inside it. -/
theorem recast_withoutComments (t : ParseTree) (path : Identity) :
    Recast source t (t.withoutComments chosen path) ∧
      Inside source t (t.withoutComments chosen path) := by
  induction t using ParseTree.childInduction generalizing path with
  | step t ih =>
    have hedited : Edited (fun c c' => Recast source c c' ∧ Inside source c c') t.children
        (withoutCommentsAll chosen path 0 t.children) := edited_withoutCommentsAll ih path 0
    have hrecast := hedited.imp fun _ _ h => h.1
    have harguments := hedited.find? "arguments" fun _ _ h => h.1.same
    rw [withoutComments_eq]
    exact ⟨hrecast.recast fun _ => optionRel_imp harguments fun _ _ h => h.2, hrecast.inside⟩

end ParseTree

/-- Comments never change the result: with any of them taken out of the parse tree of a file, the
file has the same features and, unless one of the two trees is too deep, the same diagnostics. -/
theorem comments_change_nothing (path text : String) (cst : ParseTree) (chosen : Identity → Bool)
    (hroot : cst.isComment = false) :
    ∃ tree tree', cst.toNode? text = some tree ∧
      (cst.withoutComments chosen []).toNode? text = some tree' ∧
      (extract path (.node tree)).Agrees (extract path (.node tree')) :=
  (ParseTree.recast_withoutComments cst []).1.extract_agrees hroot

/-- A class with a private method and with comments before, between and inside its statements. -/
def commentedText : String := "class A\n# one\nprivate\n# two\ndef go\n# three\nend\nend\n"

/-- Its parse tree: all statements stand straight under the declarations, so that the method has a
body for the sake of a comment. -/
def commentedTree : ParseTree :=
  let method : ParseTree :=
    { type := "method", row := 4
      children := [
        { type := "identifier", start := 32, stop := 34, row := 4, field := some "name" },
        { type := "comment", start := 35, stop := 42, row := 5 }] }
  { type := "program"
    children := [
      { type := "class"
        children := [
          { type := "constant", start := 6, stop := 7, field := some "name" },
          { type := "comment", start := 8, stop := 13, row := 1 },
          { type := "identifier", start := 14, stop := 21, row := 2 },
          { type := "comment", start := 22, stop := 27, row := 3 }, method] }] }

theorem comments_change_nothing_commentedTree :
    commentedTree.isComment = false ∧
    ∃ tree tree', commentedTree.toNode? commentedText = some tree ∧
      (commentedTree.withoutComments (fun _ => true) []).toNode? commentedText = some tree' ∧
      (tree.levels, tree'.levels) = (5, 4) ∧
      (extract "a.rb" (.node tree)).features =
        [.classLike "A" "a.rb:1" [.method ⟨"go", "a.rb:5", "A", false, .priv⟩]] ∧
      (extract "a.rb" (.node tree)).Agrees (extract "a.rb" (.node tree')) := by
  obtain ⟨tree, tree', htree, htree', hagrees⟩ :=
    comments_change_nothing "a.rb" commentedText commentedTree (fun _ => true) rfl
  cases htree
  cases htree'
  exact ⟨rfl, _, _, rfl, rfl, rfl, rfl, hagrees⟩

end RubyOutline
