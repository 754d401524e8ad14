import ToolSchema.Proofs.Entries
import ToolSchema.Schema.Document

/-! Documents as validators of values. -/
namespace ToolSchema

namespace Json

mutual

/-- There is no null in the value, at any depth. -/
def nullFree : Json → Bool
  | .null => false
  | .array items => nullFreeItems items
  | .object members => nullFreeMembers members
  | _ => true

def nullFreeItems : List Json → Bool
  | [] => true
  | item :: more => nullFree item && nullFreeItems more

def nullFreeMembers : List (String × Json) → Bool
  | [] => true
  | (_, value) :: more => nullFree value && nullFreeMembers more

end

/-- The recursion over items as a bounded quantifier. The next lemma is the same for members. -/
@[simp]
theorem nullFree_array (items : List Json) :
    (Json.array items).nullFree = true ↔ ∀ item ∈ items, item.nullFree = true := by
  rw [nullFree]
  induction items with
  | nil => simp [nullFreeItems]
  | cons item more ih => simp [nullFreeItems, ih]

@[simp]
theorem nullFree_object (members : List (String × Json)) :
    (Json.object members).nullFree = true ↔ ∀ member ∈ members, member.2.nullFree = true := by
  rw [nullFree]
  induction members with
  | nil => simp [nullFreeMembers]
  | cons member more ih => simp [nullFreeMembers, ih]

end Json

/-- The values of a type. Integers are those that fit in 64 bits, and every
number is one. -/
def TypeName.admits : TypeName → Json → Bool
  | .string, .str _ => true
  | .number, .int _ => true
  | .number, .float _ => true
  | .integer, .int n => (Json.int n).int64?.isSome
  | .boolean, .bool _ => true
  | .null, .null => true
  | _, _ => false

def TypeChoice.admits : TypeChoice → Json → Bool
  | .single type, value => type.admits value
  | .many types, value => types.any fun type => type.admits value

def TypeTag.admits : TypeTag → Json → Bool
  | .string, .str _ => true
  | .array, .array _ => true
  | .object, .object _ => true
  | _, _ => false

namespace Document

mutual

/-- A value is valid against a document if it meets all keywords. A keyword
for values of one type says nothing about other values. -/
def admits : Document → Json → Bool
  | .enum tag texts _, value => tag.admits value && texts.any fun text => value.str? == some text
  | .array tag items _, value => tag.admits value &&
    match value with
    | .array values => values.all fun item => admits items item
    | _ => true
  | .object ⟨tag, properties, required, _⟩, value => tag.admits value &&
    match value with
    | .object members => members.all (fun member => admitsMember properties member.1 member.2) &&
        required.all fun name => Entries.hasKey members name
    | _ => true
  | .leaf types _, value => types.admits value

/-- Only a declared member is valid, by the document of its name. -/
def admitsMember : List (String × Document) → String → Json → Bool
  | [], _, _ => false
  | (name, document) :: more, key, value =>
    if name = key then admits document value else admitsMember more key value

end

/-- Where property names are distinct, a member is judged by the one property of its name. -/
theorem admitsMember_eq_true_iff {properties : List (String × Document)}
    (hDistinct : (Entries.keys properties).Nodup) (key : String) (value : Json) :
    admitsMember properties key value = true ↔
      ∃ property ∈ properties, property.1 = key ∧ property.2.admits value = true := by
  induction properties with
  | nil => simp [admitsMember]
  | cons property more ih =>
      rw [Entries.keys_cons, List.nodup_cons] at hDistinct
      simp only [admitsMember, List.mem_cons, exists_eq_or_imp]
      by_cases hKey : property.1 = key
      · rw [if_pos hKey]
        constructor
        · intro h
          exact .inl ⟨hKey, h⟩
        · intro h
          rcases h with h | ⟨later, hm, hLater, _⟩
          · exact h.2
          · have hSame : property.1 = later.1 := hKey.trans hLater.symm
            exact absurd (hSame ▸ Entries.mem_keys hm) hDistinct.1
      · rw [if_neg hKey, ih hDistinct.2]
        constructor
        · intro h
          exact .inr h
        · intro h
          exact h.resolve_left fun hFirst => hKey hFirst.1

end Document

end ToolSchema
