import RubyOutline.Proofs.ConstantChain

namespace RubyOutline

namespace Qualified

/-- Segments that keep apart when they are joined: none holds a double colon, and none but the last
ends in a colon, which would be read as the first of the two that follow it. -/
def Separable (segments : List (List Char)) : Prop :=
  (∀ segment ∈ segments, ¬[':', ':'] <:+: segment) ∧
    ∀ segment ∈ segments.dropLast, segment.getLast? ≠ some ':'

theorem separable_singleton {segment : List Char} :
    Separable [segment] ↔ ¬[':', ':'] <:+: segment := by
  simp [Separable]

theorem separable_cons {first : List Char} {segments : List (List Char)} (h : segments ≠ []) :
    Separable (first :: segments) ↔
      ¬[':', ':'] <:+: first ∧ first.getLast? ≠ some ':' ∧ Separable segments := by
  rw [Separable, Separable, List.dropLast_cons_of_ne_nil h]
  simp only [List.forall_mem_cons]
  constructor
  · rintro ⟨⟨hplain, hplains⟩, hlast, hlasts⟩
    exact ⟨hplain, hlast, hplains, hlasts⟩
  · rintro ⟨hplain, hlast, hplains, hlasts⟩
    exact ⟨⟨hplain, hplains⟩, hlast, hlasts⟩

theorem separable_of_plain {segments : List (List Char)} (h : ∀ segment ∈ segments, ':' ∉ segment) :
    Separable segments := by
  refine ⟨fun segment hmem hpart => ?_, fun segment hmem hlast => ?_⟩
  · exact h segment hmem (hpart.subset (by simp))
  · exact h segment (List.dropLast_subset _ hmem) (List.mem_of_getLast? hlast)

theorem doubleColon_infix_cons {c : Char} {rest : List Char} :
    [':', ':'] <:+: c :: rest ↔ (c = ':' ∧ rest.head? = some ':') ∨ [':', ':'] <:+: rest := by
  rw [List.infix_cons_iff, List.cons_prefix_cons]
  cases rest with
  | nil => simp
  | cons d rest => simp [eq_comm]

theorem splitChars_doubleColon (rest : List Char) :
    splitChars (':' :: ':' :: rest) = [] :: splitChars rest := by
  rw [splitChars]

/-- A character that begins no double colon goes to the segment after it. -/
theorem splitChars_cons {c : Char} {rest : List Char} (h : ¬(c = ':' ∧ rest.head? = some ':')) :
    ∃ segment segments, splitChars rest = segment :: segments ∧
      splitChars (c :: rest) = (c :: segment) :: segments := by
  obtain ⟨segment, segments, hrest⟩ := List.exists_cons_of_ne_nil (splitChars_ne_nil rest)
  refine ⟨segment, segments, hrest, ?_⟩
  rw [splitChars, hrest]
  rintro tail rfl rfl
  exact h ⟨rfl, rfl⟩

/-- Texts from the left, where a double colon is taken as one. -/
theorem splitInduction {P : List Char → Prop} (nil : P [])
    (doubleColon : ∀ rest, P rest → P (':' :: ':' :: rest))
    (char : ∀ c rest, ¬(c = ':' ∧ rest.head? = some ':') → P rest → P (c :: rest))
    (text : List Char) : P text := by
  induction text using splitChars.induct with
  | case1 => exact nil
  | case2 rest ih => exact doubleColon rest ih
  | case3 c rest hc _ ih =>
    refine char c rest ?_ ih
    rintro ⟨rfl, hhead⟩
    obtain ⟨tail, rfl⟩ := List.head?_eq_some_iff.mp hhead
    exact hc tail rfl rfl
  | case4 c rest hc _ _ _ ih =>
    refine char c rest ?_ ih
    rintro ⟨rfl, hhead⟩
    obtain ⟨tail, rfl⟩ := List.head?_eq_some_iff.mp hhead
    exact hc tail rfl rfl

theorem intercalate_splitChars (text : List Char) :
    [':', ':'].intercalate (splitChars text) = text := by
  induction text using splitInduction with
  | nil => rfl
  | doubleColon rest ih =>
    rw [splitChars_doubleColon, List.intercalate_cons_of_ne_nil (splitChars_ne_nil rest), ih]
    rfl
  | char c rest hc ih =>
    obtain ⟨segment, segments, hrest, hcons⟩ := splitChars_cons hc
    rw [hrest] at ih
    rw [hcons]
    cases segments with
    | nil =>
      rw [List.intercalate_singleton] at ih ⊢
      rw [ih]
    | cons next more =>
      rw [List.intercalate_cons_cons] at ih ⊢
      rw [← ih]
      rfl

/-- A segment begins as the text does from which it is split off first. -/
theorem head?_of_splitChars {text segment : List Char} {segments : List (List Char)}
    (h : splitChars text = segment :: segments) :
    segment.head? = some ':' ∨ segment = [] ∧ segments ≠ [] → text.head? = some ':' := by
  have htext := intercalate_splitChars text
  rw [h] at htext
  rintro (hhead | ⟨rfl, hmore⟩)
  · obtain ⟨tail, rfl⟩ := List.head?_eq_some_iff.mp hhead
    cases segments with
    | nil => simp [← htext]
    | cons next more => simp [← htext, List.intercalate_cons_cons]
  · obtain ⟨next, more, rfl⟩ := List.exists_cons_of_ne_nil hmore
    simp [← htext, List.intercalate_cons_cons]

/-- What a text is split into keeps apart. -/
theorem separable_splitChars (text : List Char) : Separable (splitChars text) := by
  induction text using splitInduction with
  | nil => exact separable_singleton.mpr (by simp)
  | doubleColon rest ih =>
    rw [splitChars_doubleColon, separable_cons (splitChars_ne_nil rest)]
    exact ⟨by simp, by simp, ih⟩
  | char c rest hc ih =>
    obtain ⟨first, segments, hrest, hcons⟩ := splitChars_cons hc
    rw [hrest] at ih
    rw [hcons]
    have hhead := head?_of_splitChars hrest
    have hplain : ¬[':', ':'] <:+: c :: first := by
      rw [doubleColon_infix_cons]
      rintro (⟨rfl, hfirst⟩ | hpart)
      · exact hc ⟨rfl, hhead (.inl hfirst)⟩
      · exact ih.1 first (by simp) hpart
    by_cases hmore : segments = []
    · subst hmore
      exact separable_singleton.mpr hplain
    · rw [separable_cons hmore] at ih ⊢
      refine ⟨hplain, ?_, ih.2.2⟩
      cases hlast : first.getLast? with
      | some last =>
        rw [List.getLast?_cons, hlast, Option.getD_some, ← hlast]
        exact ih.2.1
      | none =>
        -- the text goes on with a double colon, so `c` is no colon
        obtain rfl := List.getLast?_eq_none_iff.mp hlast
        rw [List.getLast?_singleton]
        intro hcolon
        exact hc ⟨Option.some.inj hcolon, hhead (.inr ⟨rfl, hmore⟩)⟩

theorem splitChars_of_plain {segment : List Char} (h : ¬[':', ':'] <:+: segment) :
    splitChars segment = [segment] := by
  induction segment with
  | nil => rfl
  | cons c rest ih =>
    rw [doubleColon_infix_cons, not_or] at h
    obtain ⟨first, segments, hrest, hcons⟩ := splitChars_cons h.1
    rw [ih h.2] at hrest
    rw [hcons]
    obtain ⟨rfl, rfl⟩ := List.cons.inj hrest
    rfl

/-- The first double colon after a segment without one ends it, unless the segment ends in a colon
itself. -/
theorem splitChars_append {segment : List Char} (rest : List Char)
    (h : ¬[':', ':'] <:+: segment) (hlast : segment.getLast? ≠ some ':') :
    splitChars (segment ++ ':' :: ':' :: rest) = segment :: splitChars rest := by
  induction segment with
  | nil => exact splitChars_doubleColon rest
  | cons c more ih =>
    rw [doubleColon_infix_cons, not_or] at h
    have hc : ¬(c = ':' ∧ (more ++ ':' :: ':' :: rest).head? = some ':') := by
      cases more with
      | nil => simpa using hlast
      | cons d more => simpa using h.1
    have hmore : more.getLast? ≠ some ':' := by
      cases hm : more.getLast? with
      | none => simp
      | some last =>
        rw [List.getLast?_cons, hm, Option.getD_some] at hlast
        exact hlast
    obtain ⟨first, segments, hrest, hcons⟩ := splitChars_cons hc
    rw [ih h.2 hmore] at hrest
    rw [List.cons_append, hcons]
    obtain ⟨rfl, rfl⟩ := List.cons.inj hrest
    rfl

theorem splitChars_intercalate {segments : List (List Char)} (hne : segments ≠ [])
    (h : Separable segments) : splitChars ([':', ':'].intercalate segments) = segments := by
  induction segments with
  | nil => exact absurd rfl hne
  | cons first more ih =>
    by_cases hmore : more = []
    · subst hmore
      rw [List.intercalate_singleton]
      exact splitChars_of_plain (separable_singleton.mp h)
    · obtain ⟨hplain, hlast, hrest⟩ := (separable_cons hmore).mp h
      rw [List.intercalate_cons_of_ne_nil hmore, List.append_assoc, List.cons_append,
        List.singleton_append, splitChars_append _ hplain hlast, ih hmore hrest]

theorem map_toList_split (name : String) :
    (split name).map String.toList = splitChars name.toList := by
  rw [split, List.map_map]
  have hid : String.toList ∘ String.ofList = id := by
    funext text
    exact String.toList_ofList
  rw [hid, List.map_id]

theorem join_split (name : String) : join (split name) = name := by
  apply String.toList_injective
  rw [join, String.toList_intercalate, map_toList_split]
  exact intercalate_splitChars name.toList

/-- Splitting undoes joining exactly when the segments keep apart. -/
theorem split_join_iff {segments : List String} (hne : segments ≠ []) :
    split (join segments) = segments ↔ Separable (segments.map String.toList) := by
  have hinjective := List.map_injective_iff.mpr fun _ _ h => String.toList_injective h
  rw [← hinjective.eq_iff, map_toList_split, join, String.toList_intercalate]
  constructor
  · intro h
    rw [← h]
    exact separable_splitChars _
  · exact splitChars_intercalate (by simpa using hne)

theorem getLast?_split (name : String) : (split name).getLast? = some (simpleName name) := by
  have hne : split name ≠ [] := by simp [split, splitChars_ne_nil]
  rw [simpleName, List.getLastD_eq_getLast?, List.getLast?_eq_some_getLast hne, Option.getD_some]

/-- The last of some segments that keep apart is the simple name of the whole. -/
theorem getLast?_eq_simpleName {segments : List String} (hne : segments ≠ [])
    (h : Separable (segments.map String.toList)) :
    segments.getLast? = some (simpleName (join segments)) := by
  rw [← getLast?_split, (split_join_iff hne).mpr h]

end Qualified

namespace Node

/-- A chain of constants on one line spells the names of its links, outermost first. -/
inductive Spells (line : Int) : Node → List String → Prop
  | outermost (identity : Identity) (name : String) :
    Spells line (constantNode identity name .absent line) [name]
  | inside {scope : Node} {names : List String} (identity : Identity) (name : String) :
    Spells line scope names →
      Spells line (constantNode identity name (.node scope) line) (names ++ [name])

theorem Spells.extendConstant {line : Int} {scope : Node} {names : List String}
    (h : Spells line scope names) (base : Identity) (index : Nat) (more : List String) :
    Spells line (Node.extendConstant base line index scope more) (names ++ more) := by
  induction more generalizing index scope names with
  | nil => rwa [List.append_nil, Node.extendConstant]
  | cons name more ih =>
    rw [Node.extendConstant, List.append_cons]
    exact ih (.inside _ name h) (index + 1)

theorem constantPath_spells (base : Identity) (name : String) (line : Int) :
    Spells line (constantPath base name line) (Qualified.split name) := by
  obtain ⟨outer, inner, hsplit⟩ : ∃ outer inner, Qualified.split name = outer :: inner := by
    apply List.exists_cons_of_ne_nil
    simp [Qualified.split, Qualified.splitChars_ne_nil]
  rw [constantPath, hsplit]
  exact (Spells.outermost (0 :: base) outer).extendConstant base 1 inner

/-- One link of a chain: its name comes before the constant in front of it. -/
theorem segmentsWithin_constantNode (links : Nat) (identity : Identity) (name : String)
    (scope : Child) (line : Int) :
    let n := constantNode identity name scope line
    n.segmentsWithin (links + 1) =
      if name = "" then .error (.missingName n 1)
      else match n.constantScope? with
        | some outer => (outer.segmentsWithin links).map (· ++ [name])
        | none => .ok [name] := by
  intro n
  have hname : n.nameAt 1 = if name = "" then .error (.missingName n 1) else .ok name := by
    by_cases hempty : name = ""
    · subst hempty
      rfl
    · simp [n, nameAt, childAt, constantNode, bind, Except.bind, hempty]
  have hkind : n.kind = .constant := rfl
  rw [segmentsWithin_eq, if_pos hkind, hname]
  split_ifs <;> rfl

/-- A chain is read from its last link inwards: it is too long, a link without a name is met, or
all its names are read. -/
theorem Spells.segmentsWithin_cases {line : Int} {n : Node} {names : List String}
    (h : Spells line n names) (links : Nat) :
    (n.segmentsWithin links = .error .chainTooLong ∧ links < names.length) ∨
    ("" ∈ names ∧ ∃ link : Node, n.segmentsWithin links = .error (.missingName link 1) ∧
      link.line = line) ∨
    ("" ∉ names ∧ n.segmentsWithin links = .ok names) := by
  induction h generalizing links with
  | outermost identity name =>
    cases links with
    | zero => exact .inl ⟨rfl, by simp⟩
    | succ links =>
      rw [segmentsWithin_constantNode]
      by_cases hempty : name = ""
      · rw [if_pos hempty]
        exact .inr (.inl ⟨by simp [hempty], _, rfl, rfl⟩)
      · rw [if_neg hempty]
        exact .inr (.inr ⟨by simpa using Ne.symm hempty, rfl⟩)
  | @inside scope names identity name hscope ih =>
    cases links with
    | zero => exact .inl ⟨rfl, by simp⟩
    | succ links =>
      have hkind : scope.kind = .constant := by cases hscope <;> rfl
      have hfirst : (constantNode identity name (.node scope) line).constantScope? = some scope :=
        if_pos hkind
      rw [segmentsWithin_constantNode, hfirst]
      by_cases hempty : name = ""
      · rw [if_pos hempty]
        exact .inr (.inl ⟨by simp [hempty], _, rfl, rfl⟩)
      · rw [if_neg hempty]
        dsimp only
        obtain ⟨hlong, hlt⟩ | ⟨hmem, link, hlink, hline⟩ | ⟨hnames, hread⟩ := ih links
        · refine .inl ⟨by rw [hlong]; rfl, ?_⟩
          rw [List.length_append, List.length_singleton]
          omega
        · exact .inr (.inl ⟨List.mem_append_left _ hmem, link, by rw [hlink]; rfl, hline⟩)
        · refine .inr (.inr ⟨?_, by rw [hread]; rfl⟩)
          simp [hnames, Ne.symm hempty]

end Node

/-- Qualified names and their segments go over into each other. The constant of a qualified name has
the segments of the split when all of them are names, and is malformed when one is empty, unless its
chain is too long to be followed; joined again, the segments are the qualified name, and the last of
them is its simple name. The other way round, segments that are joined are split again into the same
segments exactly when none holds a double colon and none but the last ends in a colon, and the last
of them is then the simple name of the whole. -/
theorem qualified_names_round_trip (base : Identity) (name : String) (line : Int)
    (segments : List String) (hne : segments ≠ []) :
    let read := (Node.constantPath base name line).constantSegments
    (read ≠ .error .chainTooLong →
      ("" ∉ Qualified.split name → read = .ok (Qualified.split name)) ∧
      ("" ∈ Qualified.split name → ∃ link : Node, read = .error (.missingName link 1) ∧
        link.line = line)) ∧
    ((Qualified.split name).length ≤ maxLinks → read ≠ .error .chainTooLong) ∧
    Qualified.join (Qualified.split name) = name ∧
    (Qualified.split name).getLast? = some (Qualified.simpleName name) ∧
    (Qualified.split (Qualified.join segments) = segments ↔
      (∀ segment ∈ segments, ¬[':', ':'] <:+: segment.toList) ∧
        ∀ segment ∈ segments.dropLast, segment.toList.getLast? ≠ some ':') ∧
    ((∀ segment ∈ segments, ¬[':', ':'] <:+: segment.toList) →
      (∀ segment ∈ segments.dropLast, segment.toList.getLast? ≠ some ':') →
        segments.getLast? = some (Qualified.simpleName (Qualified.join segments))) := by
  intro read
  have hseparable : Qualified.Separable (segments.map String.toList) ↔
      (∀ segment ∈ segments, ¬[':', ':'] <:+: segment.toList) ∧
        ∀ segment ∈ segments.dropLast, segment.toList.getLast? ≠ some ':' := by
    rw [Qualified.Separable, ← List.map_dropLast, List.forall_mem_map, List.forall_mem_map]
  have hread := (Node.constantPath_spells base name line).segmentsWithin_cases maxLinks
  refine ⟨?_, ?_, Qualified.join_split name, Qualified.getLast?_split name, ?_, ?_⟩
  · intro hlimit
    obtain ⟨hlong, -⟩ | ⟨hmem, hmissing⟩ | ⟨hnames, hok⟩ := hread
    · exact absurd hlong hlimit
    · exact ⟨fun hnames => absurd hmem hnames, fun _ => hmissing⟩
    · exact ⟨fun _ => hok, fun hmem => absurd hmem hnames⟩
  · intro hle hlong
    obtain ⟨-, hlt⟩ | ⟨-, link, hlink, -⟩ | ⟨-, hok⟩ := hread
    · omega
    · cases hlink.symm.trans hlong
    · cases hok.symm.trans hlong
  · rw [← hseparable]
    exact Qualified.split_join_iff hne
  · intro hplain hlast
    exact Qualified.getLast?_eq_simpleName hne (hseparable.mpr ⟨hplain, hlast⟩)

/-- The path `A::B::C`, whose segments are all named, and the segments `A` and `:B`, which keep
apart though three colons in a row stand between them once they are joined. -/
theorem qualified_names_round_trip_threeColons :
    let read := (Node.constantPath [7] "A::B::C" 3).constantSegments
    ["A", ":B"] ≠ [] ∧ read = .ok ["A", "B", "C"] ∧
    Qualified.join ["A", "B", "C"] = "A::B::C" ∧ Qualified.simpleName "A::B::C" = "C" ∧
    Qualified.join ["A", ":B"] = "A:::B" ∧
    Qualified.split "A:::B" = ["A", ":B"] ∧ Qualified.simpleName "A:::B" = ":B" := by
  intro read
  have hsplit : Qualified.split "A::B::C" = ["A", "B", "C"] := by decide
  obtain ⟨hread, hlimit, hjoin, hlast, hiff, hsimple⟩ :=
    qualified_names_round_trip [7] "A::B::C" 3 ["A", ":B"] (by decide)
  have hplain : ∀ segment ∈ ["A", ":B"], ¬[':', ':'] <:+: segment.toList := by decide
  have hends : ∀ segment ∈ ["A", ":B"].dropLast, segment.toList.getLast? ≠ some ':' := by decide
  rw [hsplit] at hread hlimit hjoin hlast
  have hok := (hread (hlimit (by decide))).1 (by decide)
  exact ⟨by decide, hok, hjoin, (Option.some.inj hlast).symm, by decide, hiff.mpr ⟨hplain, hends⟩,
    (Option.some.inj (hsimple hplain hends)).symm⟩

end RubyOutline
