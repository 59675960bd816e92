import RubyOutline.Proofs.JsonText
import RubyOutline.Proofs.ReportModes

namespace RubyOutline

namespace Json

def bool? : Json → Option Bool
  | .bool value => some value
  | _ => none

/-- The text of a member of an object. -/
def text? (members : List (String × Json)) (name : String) : Option String :=
  ((Json.object members).get? name).bind string?

end Json

/-- The visibility that an object states; one that states none is public. -/
def Visibility.ofMembers? (members : List (String × Json)) : Option Visibility :=
  match (Json.object members).get? "visibility" with
  | none => some .pub
  | some value => value.string?.bind ofLabel?

def Method.ofMembers? (members : List (String × Json)) : Option Method := do
  let name ← Json.text? members "name"
  let location ← Json.text? members "location"
  let className ← Json.text? members "class_name"
  let static ← ((Json.object members).get? "static").bind Json.bool?
  let visibility ← Visibility.ofMembers? members
  return { name, location, className, static, visibility }

namespace Feature

mutual

/-- The feature of an object. Its type tells classes and methods apart. -/
def ofJson? : Json → Option Feature
  | .object members =>
    match Json.text? members "type" with
    | some "class" => do
      let name ← Json.text? members "name"
      let location ← Json.text? members "location"
      let children ← childrenIn? members
      return .classLike name location children
    | some "function" => (Method.ofMembers? members).map .method
    | _ => none
  | _ => none

/-- The features in the first member of an object that holds children. -/
def childrenIn? : List (String × Json) → Option (List Feature)
  | [] => none
  | (name, .array items) :: members =>
    if name = "children" then ofJsons? items else childrenIn? members
  | (name, _) :: members => if name = "children" then none else childrenIn? members

def ofJsons? : List Json → Option (List Feature)
  | [] => some []
  | item :: items => do
    let feature ← ofJson? item
    let features ← ofJsons? items
    return feature :: features

end

end Feature

theorem Method.ofMembers?_toJson (m : Method) :
    ∃ members, m.toJson = .object members ∧ Json.text? members "type" = some "function" ∧
      Method.ofMembers? members = some m := by
  obtain ⟨name, location, className, static, visibility⟩ := m
  refine ⟨_, rfl, rfl, ?_⟩
  cases visibility <;> rfl

namespace Feature

mutual

theorem ofJson?_toJson : ∀ f : Feature, ofJson? (toJson f) = some f
  | .classLike name location children => by
    have hchildren : childrenIn? [("name", .string name), ("location", .string location),
        ("children", .array (toJsons children)), ("type", .string "class")] = some children := by
      simp [childrenIn?, ofJsons?_toJsons children]
    rw [toJson, ofJson?, hchildren]
    rfl
  | .method m => by
    obtain ⟨members, hobject, htype, hm⟩ := m.ofMembers?_toJson
    rw [toJson, hobject, ofJson?, htype, hm]
    rfl

theorem ofJsons?_toJsons : ∀ fs : List Feature, ofJsons? (toJsons fs) = some fs
  | [] => by rw [toJsons, ofJsons?]
  | f :: fs => by
    rw [toJsons, ofJsons?, ofJson?_toJson f, ofJsons?_toJsons fs]
    rfl

end

theorem toJsons_injective {fs gs : List Feature} (h : toJsons fs = toJsons gs) : fs = gs := by
  have hfs := ofJsons?_toJsons fs
  rw [h, ofJsons?_toJsons gs] at hfs
  exact (Option.some.inj hfs).symm

end Feature

theorem stdout_printJson (p : Project) :
    (p.printJson false {}).2.stdout =
      String.ofList (Json.write 0 (.array (Feature.toJsons p.features)) ++ ['\n']) := by
  have hshown : p.files.flatMap (·.shown false) = p.features := rfl
  rw [Project.printJson_eq, hshown, String.ofList_append]
  simp only [Printout.append, String.empty_append, joinLines_cons, Json.render]
  show _ ++ "\n" ++ "" = _
  rw [String.append_empty]

/-- The JSON report on a project loses nothing, whatever the features are: its text reads back as
the objects of the features, the features can be told from their objects, and so the text belongs to
no other features. -/
theorem json_report_is_lossless (p q : Project) :
    let text (p : Project) := (p.printJson false {}).2.stdout
    Json.parse? (text p) = some (.array (Feature.toJsons p.features)) ∧
    Feature.ofJsons? (Feature.toJsons p.features) = some p.features ∧
    (text p = text q ↔ p.features = q.features) := by
  intro text
  have hread (p : Project) : Json.parse? (text p) = some (.array (Feature.toJsons p.features)) := by
    show Json.parse? (p.printJson false {}).2.stdout = _
    rw [stdout_printJson]
    refine Json.parse?_write _ fun c hc => ?_
    rw [List.mem_singleton.mp hc]
    rfl
  refine ⟨hread p, Feature.ofJsons?_toJsons p.features, ?_, ?_⟩
  · intro htext
    have hvalues := hread p
    rw [htext, hread q, Option.some.injEq, Json.array.injEq] at hvalues
    exact Feature.toJsons_injective hvalues.symm
  · intro hfeatures
    show (p.printJson false {}).2.stdout = (q.printJson false {}).2.stdout
    rw [stdout_printJson, stdout_printJson, hfeatures]

end RubyOutline
