import RubyOutline.Proofs.FeatureListing

namespace RubyOutline

namespace Json

mutual

/-- All objects in a value at any depth, each as its members. -/
def objects : Json → List (List (String × Json))
  | .array items => objectsOf items
  | .object members => members :: objectsIn members
  | .null | .bool _ | .number _ _ | .string _ => []

def objectsOf : List Json → List (List (String × Json))
  | [] => []
  | item :: items => objects item ++ objectsOf items

def objectsIn : List (String × Json) → List (List (String × Json))
  | [] => []
  | (_, value) :: members => objects value ++ objectsIn members

end

/-- No object has a member of the given name. -/
def Unnamed (name : String) (objects : List (List (String × Json))) : Prop :=
  ∀ members ∈ objects, name ∉ members.map Prod.fst

theorem unnamed_append {name : String} {objects others : List (List (String × Json))} :
    Unnamed name (objects ++ others) ↔ Unnamed name objects ∧ Unnamed name others :=
  List.forall_mem_append

end Json

namespace Feature

mutual

def typesOf : Feature → List Feature
  | .classLike name location children => [.classLike name location (types children)]
  | .method _ => []

/-- Features without any method. -/
def types : List Feature → List Feature
  | [] => []
  | f :: fs => typesOf f ++ types fs

end

/-- The classes and modules in pre-order. Each entry tells which entries before it hold it. -/
def skeleton (fs : List Feature) : List Listed := listing (types fs)

theorem types_append (fs gs : List Feature) : types (fs ++ gs) = types fs ++ types gs := by
  induction fs with
  | nil => rfl
  | cons f fs ih => rw [List.cons_append, types, types, ih, List.append_assoc]

mutual

theorem types_publicPart : ∀ f : Feature, types (publicPart f) = typesOf f
  | .classLike name location children => by
    have hinside := types_publicOnly children
    rw [publicPart, types, types, List.append_nil, typesOf, typesOf, hinside]
  | .method m => by
    rw [publicPart, typesOf]
    split
    · rw [types, types, typesOf, List.append_nil]
    · rw [types]

/-- The public part has all classes and modules in their places, also those that it leaves
empty. -/
theorem types_publicOnly : ∀ fs : List Feature, types (publicOnly fs) = types fs
  | [] => by rw [publicOnly]
  | f :: fs => by
    rw [publicOnly, types_append, types_publicPart f, types_publicOnly fs, types]

end

mutual

theorem methods_publicPart : ∀ f : Feature,
    methods (publicPart f) = (ownMethods f).filter fun m => m.visibility = .pub
  | .classLike name location children => by
    have hinside := methods_publicOnly children
    rw [publicPart, methods, methods, ownMethods, ownMethods, List.append_nil, hinside]
  | .method m => by
    rw [publicPart, ownMethods]
    by_cases hpublic : m.visibility = .pub
    · simp [hpublic, methods, ownMethods]
    · simp [hpublic, methods]

/-- The methods of the public part are the public methods. -/
theorem methods_publicOnly : ∀ fs : List Feature,
    methods (publicOnly fs) = (methods fs).filter fun m => m.visibility = .pub
  | [] => by rw [publicOnly, methods, List.filter_nil]
  | f :: fs => by
    rw [publicOnly, methods_append, methods_publicPart f, methods_publicOnly fs, methods,
      List.filter_append]

end

mutual

theorem publicPart_eq_self : ∀ f : Feature, (∀ m ∈ ownMethods f, m.visibility = .pub) →
    publicPart f = [f]
  | .classLike name location children, h => by
    rw [publicPart, publicOnly_eq_self children h]
  | .method m, h => by
    have hpublic : m.visibility = .pub := h m (by simp [ownMethods])
    rw [publicPart, if_pos hpublic]

/-- Features whose methods are all public are their own public part. -/
theorem publicOnly_eq_self : ∀ fs : List Feature, (∀ m ∈ methods fs, m.visibility = .pub) →
    publicOnly fs = fs
  | [], _ => by rw [publicOnly]
  | f :: fs, h => by
    rw [methods, List.forall_mem_append] at h
    rw [publicOnly, publicPart_eq_self f h.1, publicOnly_eq_self fs h.2, List.singleton_append]

end

theorem visibility_of_mem_publicOnly {fs : List Feature} {m : Method}
    (h : m ∈ methods (publicOnly fs)) : m.visibility = .pub := by
  rw [methods_publicOnly] at h
  exact of_decide_eq_true (List.mem_filter.1 h).2

theorem publicOnly_eq_self_iff (fs : List Feature) :
    publicOnly fs = fs ↔ ∀ m ∈ methods fs, m.visibility = .pub := by
  constructor
  · intro hsame m hm
    rw [← hsame] at hm
    exact visibility_of_mem_publicOnly hm
  · exact publicOnly_eq_self fs

theorem publicOnly_publicOnly (fs : List Feature) :
    publicOnly (publicOnly fs) = publicOnly fs := by
  apply publicOnly_eq_self
  intro m hm
  exact visibility_of_mem_publicOnly hm

/-- The object of a method names a visibility unless it is public. -/
theorem unnamed_objects_method (m : Method) :
    Json.Unnamed "visibility" m.toJson.objects ↔ m.visibility = .pub := by
  by_cases hpublic : m.visibility = .pub
  · simp [Method.toJson, hpublic, Json.objects, Json.objectsIn, Json.Unnamed]
  · simp [Method.toJson, hpublic, Json.objects, Json.objectsIn, Json.Unnamed]

mutual

theorem unnamed_objects_toJson : ∀ f : Feature,
    Json.Unnamed "visibility" (toJson f).objects ↔ ∀ m ∈ ownMethods f, m.visibility = .pub
  | .classLike name location children => by
    have hinside := unnamed_objects_toJsons children
    rw [ownMethods, ← hinside]
    simp [toJson, Json.objects, Json.objectsIn, Json.Unnamed]
  | .method m => by
    rw [toJson, ownMethods, unnamed_objects_method, List.forall_mem_singleton]

/-- The objects of features name no visibility exactly if all their methods are public. -/
theorem unnamed_objects_toJsons : ∀ fs : List Feature,
    Json.Unnamed "visibility" (Json.objectsOf (toJsons fs)) ↔ ∀ m ∈ methods fs, m.visibility = .pub
  | [] => by simp [toJsons, Json.objectsOf, methods, Json.Unnamed]
  | f :: fs => by
    rw [toJsons, Json.objectsOf, Json.unnamed_append, unnamed_objects_toJson f,
      unnamed_objects_toJsons fs, methods, List.forall_mem_append]

end

/-- The public part of features, however they are nested: its methods are the public methods, in
their order; its classes and modules are all classes and modules, with what holds them; taking it
twice or piece by piece makes no difference; and nothing is left out exactly if no object of the
features, at any depth, names a visibility. -/
theorem public_part_is_a_filter (fs gs : List Feature) :
    methods (publicOnly fs) = (methods fs).filter (fun m => m.visibility = .pub) ∧
    skeleton (publicOnly fs) = skeleton fs ∧
    publicOnly (publicOnly fs) = publicOnly fs ∧
    publicOnly (fs ++ gs) = publicOnly fs ++ publicOnly gs ∧
    (publicOnly fs = fs ↔
      ∀ members ∈ Json.objectsOf (toJsons fs), "visibility" ∉ members.map Prod.fst) := by
  have hskeleton : skeleton (publicOnly fs) = skeleton fs := by
    rw [skeleton, skeleton, types_publicOnly]
  refine ⟨methods_publicOnly fs, hskeleton, publicOnly_publicOnly fs, publicOnly_append fs gs, ?_⟩
  rw [publicOnly_eq_self_iff]
  exact (unnamed_objects_toJsons fs).symm

end Feature

end RubyOutline
