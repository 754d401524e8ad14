import ToolSchema.Proofs.Entries
import ToolSchema.Schema.Document

/-! Documents are read back as they were written. Only the members of a document
tell its kind, so no kind that is tried earlier fits what another kind writes. -/
namespace ToolSchema

/-- Items that are read back one by one are read back together. -/
theorem Json.list?_map {α : Type} {read : Json → Option α} {write : α → Json} {items : List α}
    (h : ∀ item ∈ items, read (write item) = some item) :
    Json.list? read (.array (items.map write)) = some items := by
  rw [Json.list?]
  induction items with
  | nil => rfl
  | cons item more ih =>
      rw [List.forall_mem_cons] at h
      rw [List.map_cons, List.mapM_cons, h.1, ih h.2]
      rfl

namespace Document

/-- The recursor of the nested type, with properties read as membership. -/
@[elab_as_elim]
theorem induction {motive : Document → Prop}
    (enum : ∀ tag values description, motive (.enum tag values description))
    (array : ∀ tag items description, motive items → motive (.array tag items description))
    (object : ∀ object : ObjectDocument Document,
      (∀ property ∈ object.properties, motive property.2) → motive (.object object))
    (leaf : ∀ types description, motive (.leaf types description)) (document : Document) :
    motive document :=
  @Document.rec motive
    (fun object => ∀ property ∈ object.properties, motive property.2)
    (fun properties => ∀ property ∈ properties, motive property.2)
    (fun property => motive property.2)
    enum array object leaf
    (fun _ _ _ _ hProperties => hProperties)
    (fun _ hm => nomatch hm)
    (fun _ _ hProperty hProperties => List.forall_mem_cons.mpr ⟨hProperty, hProperties⟩)
    (fun _ _ hDocument => hDocument)
    document

/-! Words -/

/-- The words of the format name different types, so each is read as what it was written for. -/
theorem typeName?_name (type : TypeName) : typeName? (.str type.name) = some type := by
  cases type <;> rfl

theorem typeTag?_name (tag : TypeTag) : typeTag? (.str tag.name) = some tag := by
  cases tag <;> rfl

/-- One type is written alone and several as an array, and the reader tells the two apart. -/
theorem typeChoice?_choiceToJson (types : TypeChoice) :
    typeChoice? (choiceToJson types) = some types := by
  cases types with
  | single type => rw [choiceToJson, typeChoice?, typeName?_name]
  | many types =>
      -- A list is no word, also if it is empty.
      have hWord (names : List Json) : typeName? (.array names) = none := rfl
      rw [choiceToJson, typeChoice?, hWord, Json.list?_map fun type _ => typeName?_name type]
      rfl

theorem strings?_strings (texts : List String) : strings? (strings texts) = some texts :=
  Json.list?_map fun _ _ => rfl

/-- A description that is not there is not written, and is read as one that is not there. -/
theorem optionalText?_description (description : Option String) :
    Json.optionalText? (Entries.get? (descriptionMember description) "description") =
      some description := by
  cases description <;> rfl

/-- The member for the description does not get in the way of any other. -/
theorem get?_descriptionMember {key : String} (hKey : key ≠ "description")
    (description : Option String) : Entries.get? (descriptionMember description) key = none := by
  cases description with
  | none => rfl
  | some text => rw [descriptionMember, Entries.get?_cons, if_neg (Ne.symm hKey), Entries.get?_nil]

/-! Kinds of documents -/

/-- An enumeration needs its values. -/
theorem enum?_without_values (tag description : Option Json) :
    enum? tag none description = none := by
  simp [enum?]

/-- An array needs its items. -/
theorem array?_without_items (tag description : Option Json) :
    array? tag none description = none := by
  simp [array?]

/-- An object needs its properties. -/
theorem object?_without_properties (tag required description : Option Json) :
    object? tag none required description = none := by
  simp [object?]

/-- The reader for enumerations takes what was written as one. Those for the other kinds follow. -/
theorem enum?_written (tag : TypeTag) (values : List String) (description : Option String) :
    enum? (some (.str tag.name)) (some (strings values))
        (Entries.get? (descriptionMember description) "description") =
      some (.enum tag values description) := by
  simp [enum?, typeTag?_name, strings?_strings, optionalText?_description]

theorem array?_written (tag : TypeTag) (items : Document) (description : Option String) :
    array? (some (.str tag.name)) (some items)
        (Entries.get? (descriptionMember description) "description") =
      some (.array tag items description) := by
  simp [array?, typeTag?_name, optionalText?_description]

theorem object?_written (object : ObjectDocument Document) :
    object? (some (.str object.tag.name)) (some object.properties)
        (some (strings object.required))
        (Entries.get? (descriptionMember object.description) "description") = some object := by
  simp [object?, typeTag?_name, strings?_strings, optionalText?_description]

theorem leaf?_written (types : TypeChoice) (description : Option String) :
    leaf? (some (choiceToJson types))
        (Entries.get? (descriptionMember description) "description") =
      some (.leaf types description) := by
  simp [leaf?, typeChoice?_choiceToJson, optionalText?_description]

theorem items?_descriptionMember (description : Option String) :
    items? (descriptionMember description) = none := by
  cases description <;> rfl

theorem propertiesMember?_descriptionMember (description : Option String) :
    propertiesMember? (descriptionMember description) = none := by
  cases description <;> rfl

/-- The reader tries the four kinds in turn. This is its equation, from which the kinds below are
read. -/
theorem ofJson?_object (members : List (String × Json)) :
    ofJson? (.object members) =
      (enum? (Entries.get? members "type") (Entries.get? members "enum")
        (Entries.get? members "description")).or
      ((array? (Entries.get? members "type") (items? members)
        (Entries.get? members "description")).or
      (((object? (Entries.get? members "type") (propertiesMember? members)
        (Entries.get? members "required") (Entries.get? members "description")).map .object).or
      (leaf? (Entries.get? members "type") (Entries.get? members "description")))) := by
  rw [ofJson?]

/-- Enumerations are tried first, so nothing can be in their way. -/
theorem ofJson?_enum (tag : TypeTag) (values : List String) (description : Option String) :
    ofJson? (toJson (.enum tag values description)) = some (.enum tag values description) := by
  have hEnum := enum?_written tag values description
  simp [toJson, ofJson?_object, Entries.get?_cons, hEnum]

/-- An array has no texts to choose from, so the reader for enumerations passes it on. -/
theorem ofJson?_array (tag : TypeTag) {items : Document} (description : Option String)
    (h : ofJson? items.toJson = some items) :
    ofJson? (toJson (.array tag items description)) = some (.array tag items description) := by
  have hEnum := @get?_descriptionMember "enum" (by decide) description
  have hArray := array?_written tag items description
  simp [toJson, ofJson?_object, Entries.get?_cons, hEnum, enum?_without_values, items?, h, hArray]

/-- Properties are read back in order if each of their documents is. -/
theorem allProperties?_propertiesToJson {properties : List (String × Document)}
    (h : ∀ property ∈ properties, ofJson? property.2.toJson = some property.2) :
    allProperties? (propertiesToJson properties) = some properties := by
  induction properties with
  | nil => rfl
  | cons property more ih =>
      rw [List.forall_mem_cons] at h
      rw [propertiesToJson, allProperties?, h.1, ih h.2]

/-- The members of an object document, whatever its place. -/
theorem object?_members {object : ObjectDocument Document}
    (h : ∀ property ∈ object.properties, ofJson? property.2.toJson = some property.2) :
    ∃ members, toJson (.object object) = .object members ∧
      Entries.get? members "enum" = none ∧ items? members = none ∧
      object? (Entries.get? members "type") (propertiesMember? members)
        (Entries.get? members "required") (Entries.get? members "description") = some object := by
  obtain ⟨tag, properties, required, description⟩ := object
  have hEnum := @get?_descriptionMember "enum" (by decide) description
  have hItems := items?_descriptionMember description
  have hProperties := allProperties?_propertiesToJson h
  have hObject := object?_written ⟨tag, properties, required, description⟩
  refine ⟨_, rfl, ?_, ?_, ?_⟩
  · simp [Entries.get?_cons, hEnum]
  · simp [items?, hItems]
  · simp [Entries.get?_cons, propertiesMember?, properties?, hProperties, hObject]

/-- An object has neither texts nor items, so the two readers before its own pass it on. -/
theorem ofJson?_object_written {object : ObjectDocument Document}
    (h : ∀ property ∈ object.properties, ofJson? property.2.toJson = some property.2) :
    ofJson? (toJson (.object object)) = some (.object object) := by
  obtain ⟨members, hMembers, hEnum, hItems, hObject⟩ := object?_members h
  rw [hMembers, ofJson?_object, hEnum, hItems, hObject, enum?_without_values,
    array?_without_items]
  rfl

/-- All other kinds have a member that a leaf lacks. -/
theorem ofJson?_leaf (types : TypeChoice) (description : Option String) :
    ofJson? (toJson (.leaf types description)) = some (.leaf types description) := by
  have hEnum := @get?_descriptionMember "enum" (by decide) description
  have hItems := items?_descriptionMember description
  have hProperties := propertiesMember?_descriptionMember description
  have hLeaf := leaf?_written types description
  simp [toJson, ofJson?_object, Entries.get?_cons, hEnum, enum?_without_values, items?, hItems,
    array?_without_items, propertiesMember?, hProperties, object?_without_properties, hLeaf]

/-- By induction over the document: every document is read back as the same document. -/
theorem ofJson?_toJson (document : Document) : ofJson? document.toJson = some document := by
  induction document using Document.induction with
  | enum tag values description => exact ofJson?_enum tag values description
  | array tag items description ih => exact ofJson?_array tag description ih
  | object object ih => exact ofJson?_object_written ih
  | leaf types description => exact ofJson?_leaf types description

/-- The parameters of a tool are always an object, which the reader takes at once. -/
theorem objectOfJson?_toJson (object : ObjectDocument Document) :
    objectOfJson? (toJson (.object object)) = some object := by
  obtain ⟨members, hMembers, -, -, hObject⟩ :=
    object?_members fun property (_ : property ∈ object.properties) => ofJson?_toJson property.2
  rw [hMembers]
  exact hObject

end Document

namespace ToolDocument

open Document (descriptionMember get?_descriptionMember optionalText?_description)

/-- The members of the description of a tool. -/
theorem get?_members (tool : ToolDocument) : ∃ members, tool.toJson = .object members ∧
    Entries.get? members "name" = some (.str tool.name) ∧
    Json.optionalText? (Entries.get? members "description") = some tool.description ∧
    ∀ flavor : Flavor, Entries.get? members flavor.parametersKey =
      if flavor = tool.flavor then some (Document.toJson (.object tool.parameters)) else none := by
  obtain ⟨flavor, name, description, parameters⟩ := tool
  have hDescription := optionalText?_description description
  refine ⟨_, rfl, ?_, ?_, fun other => ?_⟩
  · simp [Entries.get?_cons]
  · cases flavor <;> cases description <;>
      simp [descriptionMember, Flavor.parametersKey, Entries.get?_cons, Json.optionalText?]
  · cases flavor <;> cases other <;> cases description <;>
      simp [descriptionMember, Flavor.parametersKey, Entries.get?_cons]

/-- A tool document is read back under its own flavor, and under the other flavor not at all. -/
theorem ofJsonAs?_toJson (flavor : Flavor) (tool : ToolDocument) :
    ofJsonAs? flavor tool.toJson = if flavor = tool.flavor then some tool else none := by
  obtain ⟨members, hMembers, hName, hDescription, hParameters⟩ := get?_members tool
  have hObject := Document.objectOfJson?_toJson tool.parameters
  rw [hMembers]
  by_cases hFlavor : flavor = tool.flavor
  · subst hFlavor
    simp [ofJsonAs?, hName, hDescription, hParameters, hObject, Json.str?]
  · simp [ofJsonAs?, hName, hParameters, hFlavor]

theorem ofJson?_toJson (tool : ToolDocument) : ofJson? tool.toJson = some tool := by
  rw [ofJson?, ofJsonAs?_toJson, ofJsonAs?_toJson]
  cases hFlavor : tool.flavor <;> rfl

end ToolDocument

/-- Documents and descriptions of tools are read back as what they were, of the same
kind and in the same flavor, however deeply documents are nested and whatever their
tags, types and descriptions are. -/
theorem documents_read_back :
    (∀ document : Document, Document.ofJson? document.toJson = some document) ∧
      ∀ tool : ToolDocument, ToolDocument.ofJson? tool.toJson = some tool :=
  ⟨Document.ofJson?_toJson, ToolDocument.ofJson?_toJson⟩

end ToolSchema
