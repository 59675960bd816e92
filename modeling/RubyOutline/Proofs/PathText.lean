import RubyOutline.Files.Path

namespace RubyOutline.Path

/-- A character that is no slash belongs to the first piece. -/
theorem splitSlashes_cons {c : Char} (h : c ≠ '/') (rest : List Char) :
    ∃ name names, splitSlashes rest = name :: names ∧
      splitSlashes (c :: rest) = (c :: name) :: names := by
  have hne : splitSlashes rest ≠ [] := by
    unfold splitSlashes
    split
    · simp
    · simp
    · split <;> simp
  obtain ⟨name, names, hrest⟩ := List.exists_cons_of_ne_nil hne
  exact ⟨name, names, hrest, by simp [splitSlashes, hrest]⟩

theorem splitSlashes_of_not_mem {text : List Char} (h : '/' ∉ text) :
    splitSlashes text = [text] := by
  induction text with
  | nil => rfl
  | cons c rest ih =>
    rw [List.mem_cons, not_or] at h
    obtain ⟨name, names, hrest, hcons⟩ := splitSlashes_cons (Ne.symm h.1) rest
    obtain ⟨rfl, rfl⟩ := List.cons.inj ((ih h.2).symm.trans hrest)
    exact hcons

/-- A name is a path of one piece. -/
theorem pieces_of_not_mem {path : String} (h : '/' ∉ path.toList) : pieces path = [path] := by
  rw [pieces, splitSlashes_of_not_mem h, List.map_singleton, String.ofList_toList]

theorem tidy_of_not_mem {path : String} (h : '/' ∉ path.toList) (hempty : path ≠ "")
    (hdot : path ≠ ".") : tidy path = path := by
  have hroot : rootSlashes path = "" := by
    unfold rootSlashes
    split <;> simp_all
  simp [tidy, names, pieces_of_not_mem h, hempty, hdot, hroot, ofNames]

theorem mem_of_mem_splitSlashes {c : Char} {piece text : List Char}
    (hpiece : piece ∈ splitSlashes text) (hc : c ∈ piece) : c ∈ text := by
  induction text generalizing piece with
  | nil =>
    simp only [splitSlashes, List.mem_singleton] at hpiece
    rw [hpiece] at hc
    exact hc
  | cons d rest ih =>
    by_cases hd : d = '/'
    · subst hd
      obtain rfl | hpiece := List.mem_cons.1 hpiece
      · cases hc
      · exact List.mem_cons_of_mem _ (ih hpiece hc)
    · obtain ⟨name, names, hrest, hsplit⟩ := splitSlashes_cons hd rest
      rw [hsplit] at hpiece
      rw [hrest] at ih
      obtain rfl | hpiece := List.mem_cons.1 hpiece
      · obtain rfl | hc := List.mem_cons.1 hc
        · exact List.mem_cons_self
        · exact List.mem_cons_of_mem _ (ih List.mem_cons_self hc)
      · exact List.mem_cons_of_mem _ (ih (List.mem_cons_of_mem _ hpiece) hc)

theorem splitSlashes_concat {c : Char} (h : c ≠ '/') (text : List Char) :
    ∃ names last, splitSlashes (text ++ [c]) = names ++ [last] ∧ last ≠ [] := by
  induction text with
  | nil => exact ⟨[], [c], by simp [splitSlashes], by simp⟩
  | cons d rest ih =>
    obtain ⟨names, last, hsplit, hlast⟩ := ih
    by_cases hd : d = '/'
    · subst hd
      exact ⟨[] :: names, last, congrArg (List.cons []) hsplit, hlast⟩
    · obtain ⟨first, others, hrest, hcons⟩ := splitSlashes_cons hd (rest ++ [c])
      rw [List.cons_append, hcons]
      rw [hsplit] at hrest
      cases names with
      | nil =>
        obtain ⟨rfl, rfl⟩ := List.cons.inj hrest
        exact ⟨[], d :: last, rfl, by simp⟩
      | cons name names =>
        obtain ⟨rfl, rfl⟩ := List.cons.inj hrest
        exact ⟨(d :: name) :: names, last, rfl, hlast⟩

/-- The last piece of a path that does not end in a slash. -/
theorem pieces_of_last {path : String} {text : List Char} {c : Char}
    (hpath : path.toList = text ++ [c]) (h : c ≠ '/') :
    ∃ names last, pieces path = names ++ [last] ∧ last ≠ "" := by
  obtain ⟨names, last, hsplit, hlast⟩ := splitSlashes_concat h text
  refine ⟨names.map String.ofList, String.ofList last, ?_, ?_⟩
  · rw [pieces, hpath, hsplit, List.map_append]
    rfl
  · simpa using hlast

/-- The path of a file in a directory ends as the name of the file does. -/
theorem pieces_join (directory : String) {name : String} {text : List Char} {c : Char}
    (hname : name.toList = text ++ [c]) (h : c ≠ '/') :
    ∃ names last, pieces (join directory name) = names ++ [last] ∧ last ≠ "" := by
  unfold join
  split
  · have hpath : (directory ++ name).toList = directory.toList ++ text ++ [c] := by
      rw [String.toList_append, hname, List.append_assoc]
    exact pieces_of_last hpath h
  · have hpath : (directory ++ "/" ++ name).toList =
        (directory ++ "/").toList ++ text ++ [c] := by
      rw [String.toList_append, hname, List.append_assoc]
    exact pieces_of_last hpath h

theorem hasNull_eq_false {path : String} : hasNull path = false ↔ '\x00' ∉ path.toList := by
  rw [hasNull, String.contains_char_eq, decide_eq_false_iff_not]

theorem hasNull_of_mem_pieces {path piece : String} (h : hasNull path = false)
    (hpiece : piece ∈ pieces path) : hasNull piece = false := by
  obtain ⟨text, htext, rfl⟩ := List.mem_map.1 hpiece
  rw [hasNull_eq_false] at h ⊢
  rw [String.toList_ofList]
  exact fun hc => h (mem_of_mem_splitSlashes htext hc)

theorem mem_of_mem_intercalate {c : Char} {separator : List Char} {texts : List (List Char)}
    (h : c ∈ separator.intercalate texts) : c ∈ separator ∨ ∃ text ∈ texts, c ∈ text := by
  induction texts with
  | nil => simp at h
  | cons first rest ih =>
    cases rest with
    | nil => exact .inr ⟨first, by simp, by simpa using h⟩
    | cons second rest =>
      rw [List.intercalate_cons_cons, List.mem_append, List.mem_append] at h
      obtain (hfirst | hseparator) | hrest := h
      · exact .inr ⟨first, by simp, hfirst⟩
      · exact .inl hseparator
      · obtain hseparator | ⟨text, htext, hc⟩ := ih hrest
        · exact .inl hseparator
        · exact .inr ⟨text, List.mem_cons_of_mem _ htext, hc⟩

theorem hasNull_rootSlashes (path : String) : hasNull (rootSlashes path) = false := by
  rw [hasNull_eq_false]
  unfold rootSlashes
  split <;> simp

theorem hasNull_ofNames {root : String} {names : List String} (hroot : hasNull root = false)
    (hnames : ∀ name ∈ names, hasNull name = false) : hasNull (ofNames root names) = false := by
  rw [ofNames]
  split
  · simp [hasNull_eq_false]
  · rw [hasNull_eq_false] at hroot ⊢
    rw [String.toList_append, String.toList_intercalate, List.mem_append]
    rintro (hc | hc)
    · exact hroot hc
    · obtain hslash | ⟨text, htext, hc⟩ := mem_of_mem_intercalate hc
      · simp at hslash
      · obtain ⟨name, hname, rfl⟩ := List.mem_map.1 htext
        exact hasNull_eq_false.1 (hnames name hname) hc

/-- The path of an entry below a directory has a null character only if the path of the directory
or a name on the way has one. -/
theorem hasNull_below {directory : String} {relative : List String}
    (hdirectory : hasNull directory = false)
    (hrelative : ∀ name ∈ relative, hasNull name = false) :
    hasNull (below directory relative) = false := by
  refine hasNull_ofNames (hasNull_rootSlashes directory) fun name hname => ?_
  obtain hname | hname := List.mem_append.1 hname
  · exact hasNull_of_mem_pieces hdirectory (List.mem_filter.1 hname).1
  · exact hrelative name hname

theorem slash_not_mem_of_mem_splitSlashes {piece text : List Char}
    (h : piece ∈ splitSlashes text) : '/' ∉ piece := by
  induction text generalizing piece with
  | nil =>
    simp only [splitSlashes, List.mem_singleton] at h
    simp [h]
  | cons c rest ih =>
    by_cases hc : c = '/'
    · subst hc
      obtain rfl | hrest := List.mem_cons.1 h
      · simp
      · exact ih hrest
    · obtain ⟨name, names, hrest, hsplit⟩ := splitSlashes_cons hc rest
      rw [hsplit] at h
      rw [hrest] at ih
      obtain rfl | hnames := List.mem_cons.1 h
      · have hname := ih List.mem_cons_self
        simp [hname, Ne.symm hc]
      · exact ih (List.mem_cons_of_mem _ hnames)

theorem splitSlashes_append_slash {text : List Char} (h : '/' ∉ text) (rest : List Char) :
    splitSlashes (text ++ '/' :: rest) = text :: splitSlashes rest := by
  induction text with
  | nil => rfl
  | cons c text ih =>
    rw [List.mem_cons, not_or] at h
    obtain ⟨name, names, hrest, hcons⟩ := splitSlashes_cons (Ne.symm h.1) (text ++ '/' :: rest)
    obtain ⟨rfl, rfl⟩ := List.cons.inj ((ih h.2).symm.trans hrest)
    exact hcons

theorem slash_not_mem_of_mem_pieces {path piece : String} (h : piece ∈ pieces path) :
    '/' ∉ piece.toList := by
  obtain ⟨text, htext, rfl⟩ := List.mem_map.1 h
  rw [String.toList_ofList]
  exact slash_not_mem_of_mem_splitSlashes htext

theorem pieces_append_slash {name : String} (h : '/' ∉ name.toList) (path : String) :
    pieces (name ++ "/" ++ path) = name :: pieces path := by
  have htext : (name ++ "/" ++ path).toList = name.toList ++ '/' :: path.toList := by simp
  rw [pieces, htext, splitSlashes_append_slash h, List.map_cons, String.ofList_toList, pieces]

/-- Names without slashes are the pieces of the path that they make. -/
theorem pieces_intercalate {names : List String} (hne : names ≠ [])
    (h : ∀ name ∈ names, '/' ∉ name.toList) : pieces ("/".intercalate names) = names := by
  induction names with
  | nil => exact absurd rfl hne
  | cons first rest ih =>
    have hfirst := h first List.mem_cons_self
    cases rest with
    | nil => rw [String.intercalate_singleton, pieces_of_not_mem hfirst]
    | cons second rest =>
      have hrest : ∀ name ∈ second :: rest, '/' ∉ name.toList := by
        intro name hname
        exact h name (List.mem_cons_of_mem _ hname)
      rw [String.intercalate_cons_cons, pieces_append_slash hfirst, ih (by simp) hrest]

theorem rootSlashes_cases (path : String) :
    rootSlashes path = "" ∨ rootSlashes path = "/" ∨ rootSlashes path = "//" := by
  unfold rootSlashes
  split <;> simp

/-- Slashes at the start of a path add no name. -/
theorem names_rootSlashes_append (path rest : String) :
    names (rootSlashes path ++ rest) = names rest := by
  have hslash (rest : String) : pieces ("/" ++ rest) = "" :: pieces rest := by
    have hempty : '/' ∉ "".toList := by simp
    simpa using pieces_append_slash hempty rest
  obtain hroot | hroot | hroot := rootSlashes_cases path
  · rw [hroot, String.empty_append]
  · simp [hroot, names, hslash]
  · have htwo : "//" ++ rest = "/" ++ ("/" ++ rest) := by rw [← String.append_assoc]; rfl
    simp [hroot, names, htwo, hslash]

/-- A name that an entry of a directory can have. -/
structure IsName (name : String) : Prop where
  ne_empty : name ≠ ""
  ne_dot : name ≠ "."
  ne_dots : name ≠ ".."
  no_slash : '/' ∉ name.toList
  no_null : '\x00' ∉ name.toList

instance (name : String) : Decidable (IsName name) :=
  decidable_of_iff (name ≠ "" ∧ name ≠ "." ∧ name ≠ ".." ∧ '/' ∉ name.toList ∧
      '\x00' ∉ name.toList)
    ⟨fun ⟨hempty, hdot, hdots, hslash, hnull⟩ => ⟨hempty, hdot, hdots, hslash, hnull⟩,
      fun h => ⟨h.ne_empty, h.ne_dot, h.ne_dots, h.no_slash, h.no_null⟩⟩

variable {start : String} {relative other : List String}

theorem below_eq (start : String) (hne : relative ≠ []) :
    below start relative = rootSlashes start ++ "/".intercalate (names start ++ relative) := by
  simp [below, ofNames, hne]

theorem pieces_names_append (start : String) (hne : relative ≠ [])
    (h : ∀ name ∈ relative, IsName name) :
    pieces ("/".intercalate (names start ++ relative)) = names start ++ relative := by
  apply pieces_intercalate
  · simp [hne]
  · intro name hname
    obtain hname | hname := List.mem_append.1 hname
    · exact slash_not_mem_of_mem_pieces (List.mem_filter.1 hname).1
    · exact (h name hname).no_slash

/-- The names of a path below a directory. -/
theorem names_below (start : String) (hne : relative ≠ [])
    (h : ∀ name ∈ relative, IsName name) :
    names (below start relative) = names start ++ relative := by
  have hkept : relative.filter (fun name => name != "" && name != ".") = relative := by
    rw [List.filter_eq_self]
    intro name hname
    simp [(h name hname).ne_empty, (h name hname).ne_dot]
  rw [below_eq start hne, names_rootSlashes_append, names, pieces_names_append start hne h,
    List.filter_append, hkept, names, List.filter_filter]
  simp only [Bool.and_self]

/-- Different ways down from a directory make different paths. -/
theorem eq_of_below_eq (hne : relative ≠ []) (h : ∀ name ∈ relative, IsName name)
    (hne' : other ≠ []) (h' : ∀ name ∈ other, IsName name)
    (hbelow : below start relative = below start other) : relative = other := by
  have hnames := congrArg names hbelow
  rw [names_below start hne h, names_below start hne' h'] at hnames
  exact List.append_cancel_left hnames

theorem isAbsolute_iff {path : String} :
    isAbsolute path = true ↔ ∃ rest, path.toList = '/' :: rest := by
  have hslash : "/".toList = ['/'] := by simp
  rw [isAbsolute, String.startsWith_string_iff, hslash]
  constructor
  · rintro ⟨rest, hrest⟩
    exact ⟨rest, hrest.symm⟩
  · rintro ⟨rest, hrest⟩
    exact ⟨rest, hrest.symm⟩

theorem rootSlashes_of_absolute {path : String} (h : isAbsolute path = true) :
    ∃ rest, (rootSlashes path).toList = '/' :: rest := by
  obtain ⟨rest, hrest⟩ := isAbsolute_iff.1 h
  unfold rootSlashes
  split <;> simp_all

theorem rootSlashes_of_relative {path : String} (h : isAbsolute path = false) :
    rootSlashes path = "" := by
  have hnone : ∀ rest, path.toList ≠ '/' :: rest := by
    intro rest hrest
    rw [isAbsolute_iff.2 ⟨rest, hrest⟩] at h
    cases h
  unfold rootSlashes
  split <;> simp_all

/-- A path below a directory starts where the path of the directory does. -/
theorem isAbsolute_below (start : String) (hne : relative ≠ [])
    (h : ∀ name ∈ relative, IsName name) :
    isAbsolute (below start relative) = isAbsolute start := by
  rw [below_eq start hne]
  cases hstart : isAbsolute start with
  | true =>
    obtain ⟨rest, hroot⟩ := rootSlashes_of_absolute hstart
    rw [isAbsolute_iff, String.toList_append, hroot]
    exact ⟨_, rfl⟩
  | false =>
    -- a slash in front would make the first name empty
    rw [rootSlashes_of_relative hstart, String.empty_append, Bool.eq_false_iff, Ne, isAbsolute_iff]
    rintro ⟨rest, htext⟩
    have hpieces := pieces_names_append start hne h
    rw [pieces, htext, splitSlashes, List.map_cons] at hpieces
    have hempty : "" ∈ names start ++ relative := by
      rw [← hpieces]
      exact List.mem_cons_self
    obtain hempty | hempty := List.mem_append.1 hempty
    · simp [names] at hempty
    · exact (h "" hempty).ne_empty rfl

end RubyOutline.Path
