import RubyOutline.Files.Entry
import RubyOutline.Proofs.PathText

namespace RubyOutline.Entry

open RubyOutline.Path (IsName)

mutual

/-- No two entries of a directory have the same name, and all names can be names. -/
def IsTree : Entry → Prop
  | .directory entries => (entries.map Prod.fst).Nodup ∧ AreTrees entries
  | .file _ | .device => True

def AreTrees : List (String × Entry) → Prop
  | [] => True
  | (name, entry) :: rest => IsName name ∧ entry.IsTree ∧ AreTrees rest

end

mutual

def decidableIsTree : (entry : Entry) → Decidable entry.IsTree
  | .directory entries =>
    have := decidableAreTrees entries
    inferInstanceAs (Decidable ((entries.map Prod.fst).Nodup ∧ AreTrees entries))
  | .file _ | .device => inferInstanceAs (Decidable True)

def decidableAreTrees : (entries : List (String × Entry)) → Decidable (AreTrees entries)
  | [] => inferInstanceAs (Decidable True)
  | (name, entry) :: rest =>
    have := decidableIsTree entry
    have := decidableAreTrees rest
    inferInstanceAs (Decidable (IsName name ∧ entry.IsTree ∧ AreTrees rest))

end

instance (entry : Entry) : Decidable entry.IsTree := decidableIsTree entry

mutual

/-- All entries below the given ones, and these themselves, in the order of a walk. Each comes with
the names that lead to it. -/
def contents (outer : List String) : List (String × Entry) → List (List String × Entry)
  | [] => []
  | (name, entry) :: rest =>
    (outer ++ [name], entry) :: contentsOf (outer ++ [name]) entry ++ contents outer rest

def contentsOf (here : List String) : Entry → List (List String × Entry)
  | .directory entries => contents here entries
  | .file _ | .device => []

end

variable {name : String} {names : List String} {e entry : Entry}
  {entries : List (String × Entry)}

theorem find?_eq_some_iff (h : (entries.map Prod.fst).Nodup) :
    find? name entries = some e ↔ (name, e) ∈ entries := by
  induction entries with
  | nil => simp [find?]
  | cons first rest ih =>
    obtain ⟨key, other⟩ := first
    rw [List.map_cons, List.nodup_cons] at h
    have hrest := ih h.2
    simp only [find?] at hrest
    by_cases hkey : key = name
    · subst hkey
      have hnone : (key, e) ∉ rest := by
        intro hmem
        exact h.1 (List.mem_map.2 ⟨(key, e), hmem, rfl⟩)
      simp [find?, hnone, eq_comm]
    · simp [find?, hkey, hrest, Ne.symm hkey]

theorem AreTrees.of_mem (h : AreTrees entries) (hmem : (name, entry) ∈ entries) :
    IsName name ∧ entry.IsTree := by
  induction entries with
  | nil => cases hmem
  | cons first rest ih =>
    obtain ⟨key, other⟩ := first
    obtain ⟨hname, htree, hrest⟩ := h
    obtain hfirst | hmem := List.mem_cons.1 hmem
    · cases hfirst
      exact ⟨hname, htree⟩
    · exact ih hrest hmem

/-- The names that lead to an entry of a tree can all be names, and what they lead to is a tree. -/
theorem IsTree.of_get? (h : entry.IsTree) (hget : get? names entry = some e) :
    (∀ name ∈ names, IsName name) ∧ e.IsTree := by
  induction names generalizing entry with
  | nil =>
    cases hget
    exact ⟨by simp, h⟩
  | cons first rest ih =>
    cases entry with
    | file | device => cases hget
    | directory entries =>
      simp only [get?] at hget
      obtain ⟨below, hfind, hbelow⟩ := Option.bind_eq_some_iff.1 hget
      obtain ⟨hname, htree⟩ := h.2.of_mem ((find?_eq_some_iff h.1).1 hfind)
      obtain ⟨hnames, he⟩ := ih htree hbelow
      exact ⟨List.forall_mem_cons.2 ⟨hname, hnames⟩, he⟩

mutual

/-- The walk comes to the given entries and to what they lead to. -/
theorem mem_contents_iff {names outer : List String} {e : Entry} :
    (entries : List (String × Entry)) → AreTrees entries →
      ((names, e) ∈ contents outer entries ↔ ∃ name inner entry, (name, entry) ∈ entries ∧
        names = outer ++ name :: inner ∧ get? inner entry = some e)
  | [], _ => by simp [contents]
  | (first, other) :: rest, h => by
    have hbelow : (names, e) ∈ contentsOf (outer ++ [first]) other ↔ _ :=
      mem_contentsOf_iff other h.2.1
    have hrest : (names, e) ∈ contents outer rest ↔ _ := mem_contents_iff rest h.2.2
    rw [contents, List.mem_append, List.mem_cons, hbelow, hrest]
    constructor
    · rintro ((hhere | ⟨inner, -, hnames, hget⟩) | ⟨name, inner, entry, hmem, hnames, hget⟩)
      · cases hhere
        exact ⟨first, [], e, List.mem_cons_self, rfl, rfl⟩
      · rw [List.append_assoc] at hnames
        exact ⟨first, inner, other, List.mem_cons_self, hnames, hget⟩
      · exact ⟨name, inner, entry, List.mem_cons_of_mem _ hmem, hnames, hget⟩
    · rintro ⟨name, inner, entry, hmem, hnames, hget⟩
      obtain hfirst | hmem := List.mem_cons.1 hmem
      · cases hfirst
        cases inner with
        | nil =>
          cases hget
          exact .inl (.inl (by rw [hnames]))
        | cons next inner =>
          refine .inl (.inr ⟨next :: inner, by simp, ?_, hget⟩)
          rw [hnames, List.append_assoc]
          rfl
      · exact .inr ⟨name, inner, entry, hmem, hnames, hget⟩

theorem mem_contentsOf_iff {names here : List String} {e : Entry} :
    (entry : Entry) → entry.IsTree →
      ((names, e) ∈ contentsOf here entry ↔
        ∃ inner, inner ≠ [] ∧ names = here ++ inner ∧ get? inner entry = some e)
  | .directory entries, h => by
    rw [contentsOf, mem_contents_iff entries h.2]
    constructor
    · rintro ⟨name, inner, entry, hmem, hnames, hget⟩
      refine ⟨name :: inner, by simp, hnames, ?_⟩
      rw [get?, (find?_eq_some_iff h.1).2 hmem]
      exact hget
    · rintro ⟨inner, hne, hnames, hget⟩
      cases inner with
      | nil => exact absurd rfl hne
      | cons name inner =>
        rw [get?] at hget
        obtain ⟨entry, hfind, hentry⟩ := Option.bind_eq_some_iff.1 hget
        exact ⟨name, inner, entry, (find?_eq_some_iff h.1).1 hfind, hnames, hentry⟩
  | .file _, _ | .device, _ => by
    simp only [contentsOf, List.not_mem_nil, false_iff]
    rintro ⟨inner, hne, -, hget⟩
    cases inner with
    | nil => exact hne rfl
    | cons => cases hget

end

/-- From an entry down, the walk comes to what is at some place below it. -/
theorem IsTree.mem_contentsOf (h : entry.IsTree) :
    (names, e) ∈ contentsOf [] entry ↔ names ≠ [] ∧ get? names entry = some e := by
  rw [mem_contentsOf_iff entry h]
  simp only [List.nil_append]
  constructor
  · rintro ⟨inner, hne, rfl, hget⟩
    exact ⟨hne, hget⟩
  · rintro ⟨hne, hget⟩
    exact ⟨names, hne, rfl, hget⟩

mutual

/-- The walk comes to each place once. -/
theorem nodup_contents {outer : List String} : (entries : List (String × Entry)) →
    (entries.map Prod.fst).Nodup → AreTrees entries →
      ((contents outer entries).map Prod.fst).Nodup
  | [], _, _ => by simp [contents]
  | (first, other) :: rest, hnodup, h => by
    have hbelow : ((contentsOf (outer ++ [first]) other).map Prod.fst).Nodup :=
      nodup_contentsOf other h.2.1
    rw [List.map_cons, List.nodup_cons] at hnodup
    have hrest : ((contents outer rest).map Prod.fst).Nodup :=
      nodup_contents rest hnodup.2 h.2.2
    -- below the first entry all names go on from its own; those of the rest start differently
    have hfrom : ∀ names ∈ (contentsOf (outer ++ [first]) other).map Prod.fst,
        ∃ inner, inner ≠ [] ∧ names = outer ++ first :: inner := by
      intro names hnames
      obtain ⟨⟨_, e⟩, hmem, rfl⟩ := List.mem_map.1 hnames
      obtain ⟨inner, hne, hnames, -⟩ := (mem_contentsOf_iff other h.2.1).1 hmem
      exact ⟨inner, hne, by simpa using hnames⟩
    have hapart : ∀ inner, outer ++ first :: inner ∉ (contents outer rest).map Prod.fst := by
      intro inner hnames
      obtain ⟨⟨_, e⟩, hmem, hsame⟩ := List.mem_map.1 hnames
      obtain ⟨name, inner', entry, hentry, hnames', -⟩ := (mem_contents_iff rest h.2.2).1 hmem
      obtain ⟨rfl, -⟩ := List.cons.inj (List.append_cancel_left (hsame.symm.trans hnames'))
      exact hnodup.1 (List.mem_map.2 ⟨(first, entry), hentry, rfl⟩)
    rw [contents, List.map_append, List.map_cons, List.nodup_append, List.nodup_cons]
    refine ⟨⟨?_, hbelow⟩, hrest, ?_⟩
    · intro hhere
      obtain ⟨inner, hne, hnames⟩ := hfrom _ hhere
      exact hne (List.cons.inj (List.append_cancel_left hnames)).2.symm
    · rintro names hnames _ hother rfl
      obtain rfl | hnames := List.mem_cons.1 hnames
      · exact hapart [] hother
      · obtain ⟨inner, -, rfl⟩ := hfrom _ hnames
        exact hapart inner hother

theorem nodup_contentsOf {here : List String} : (entry : Entry) → entry.IsTree →
    ((contentsOf here entry).map Prod.fst).Nodup
  | .directory entries, h => nodup_contents entries h.1 h.2
  | .file _, _ | .device, _ => by simp [contentsOf]

end

end RubyOutline.Entry
