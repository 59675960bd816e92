namespace RubyOutline

inductive Visibility where
  | pub
  | prot
  | priv
  deriving DecidableEq, Repr

namespace Visibility

def label : Visibility → String
  | .pub => "public"
  | .prot => "protected"
  | .priv => "private"

def all : List Visibility := [.pub, .prot, .priv]

def ofLabel? (text : String) : Option Visibility := all.find? (·.label == text)

theorem ofLabel?_label (v : Visibility) : ofLabel? v.label = some v := by
  cases v <;> decide

end Visibility

end RubyOutline
