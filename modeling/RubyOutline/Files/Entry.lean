namespace RubyOutline

/-- A device exists and is neither a file nor a directory. -/
inductive Entry where
  | file (bytes : List UInt8)
  | device
  | directory (entries : List (String × Entry))

namespace Entry

def isFile : Entry → Bool
  | .file _ => true
  | _ => false

def isDirectory : Entry → Bool
  | .directory _ => true
  | _ => false

def find? (name : String) (entries : List (String × Entry)) : Option Entry :=
  (entries.find? (·.1 == name)).map (·.2)

/-- The entry at a path of names below this one. -/
def get? : List String → Entry → Option Entry
  | [], e => some e
  | name :: names, .directory entries => (find? name entries).bind (get? names)
  | _ :: _, _ => none

/-- Replace the entry of a name in its place, or add it at the end. -/
def insert (name : String) (entry : Entry) : List (String × Entry) → List (String × Entry)
  | [] => [(name, entry)]
  | (other, e) :: rest =>
    if other = name then (name, entry) :: rest else (other, e) :: insert name entry rest

theorem find?_insert (name other : String) (entry : Entry) (entries : List (String × Entry)) :
    find? other (insert name entry entries) =
      if name = other then some entry else find? other entries := by
  induction entries with
  | nil => by_cases h : name = other <;> simp [insert, find?, h]
  | cons first rest ih =>
    obtain ⟨key, e⟩ := first
    simp only [find?] at ih
    by_cases hk : key = name
    · subst hk
      by_cases h : key = other <;> simp [insert, find?, h]
    · by_cases h : key = other
      · have hn : ¬ name = other := fun hn => hk (h.trans hn.symm)
        have hk' : ¬ other = name := fun hn' => hn hn'.symm
        simp [insert, find?, h, hn, hk']
      · simp [insert, find?, hk, h, ih]

/-- Put an entry at a path, with directories made on the way where nothing is. What stands in the
way and is no directory stays. -/
def put : Entry → List String → Entry → Entry
  | _, [], entry => entry
  | .directory entries, name :: names, entry =>
    .directory (insert name (put ((find? name entries).getD (.directory [])) names entry) entries)
  | e, _ :: _, _ => e

def erase : List String → Entry → Entry
  | [], e => e
  | [name], .directory entries => .directory (entries.filter (·.1 != name))
  | name :: names, .directory entries =>
    .directory (entries.map fun (other, e) =>
      (other, if other = name then erase names e else e))
  | _ :: _, e => e

mutual

/-- All files below an entry, with their paths; `outer` has the names on the way, last first. -/
def files (outer : List String) : Entry → List (List String × List UInt8)
  | .file bytes => [(outer.reverse, bytes)]
  | .device => []
  | .directory entries => filesOf outer entries

def filesOf (outer : List String) : List (String × Entry) → List (List String × List UInt8)
  | [] => []
  | (name, entry) :: rest => files (name :: outer) entry ++ filesOf outer rest

end

end Entry

end RubyOutline
