import RubyOutline.Feature.Basic

namespace RubyOutline

/-- A feature without the features inside it. -/
inductive Heading where
  | classLike (name location : String)
  | method (method : Method)
  deriving DecidableEq, Repr

namespace Heading

def isClass : Heading → Bool
  | .classLike _ _ => true
  | .method _ => false

def name : Heading → String
  | .classLike name _ => name
  | .method m => m.name

def location : Heading → String
  | .classLike _ location => location
  | .method m => m.location

end Heading

/-- An entry of a listing, with the places in the listing of what holds it, outermost first. -/
structure Listed where
  holders : List Nat
  heading : Heading
  deriving DecidableEq, Repr

namespace Feature

mutual

/-- The entries of one feature, the first of them at the given place of the listing. -/
def listingOf (holders : List Nat) (place : Nat) : Feature → List Listed
  | .classLike name location children =>
    ⟨holders, .classLike name location⟩ ::
      listingFrom (holders ++ [place]) (place + 1) children
  | .method m => [⟨holders, .method m⟩]

def listingFrom (holders : List Nat) (place : Nat) : List Feature → List Listed
  | [] => []
  | f :: fs =>
    let first := listingOf holders place f
    first ++ listingFrom holders (place + first.length) fs

end

/-- Features and all inside them in pre-order. -/
def listing (fs : List Feature) : List Listed := listingFrom [] 0 fs

theorem listingFrom_append (holders : List Nat) (place : Nat) (fs gs : List Feature) :
    listingFrom holders place (fs ++ gs) = listingFrom holders place fs ++
      listingFrom holders (place + (listingFrom holders place fs).length) gs := by
  induction fs generalizing place with
  | nil => rfl
  | cons f fs ih =>
    simp only [List.cons_append, listingFrom, ih, List.length_append, List.append_assoc,
      Nat.add_assoc]

theorem listingFrom_singleton (holders : List Nat) (place : Nat) (f : Feature) :
    listingFrom holders place [f] = listingOf holders place f := by
  simp only [listingFrom, List.append_nil]

end Feature

end RubyOutline
