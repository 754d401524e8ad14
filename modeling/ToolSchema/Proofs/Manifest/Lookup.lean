import ToolSchema.Proofs.Manifest.Coverage

/-! What a reading asks for. Only names that the scan finds are looked up: where
they mean related types, related types are read. -/
namespace ToolSchema.Manifest

open TypeExpr
open TypeExpr.Grammar

/-- Related parts make related types. -/
structure IsCongruence (r : TypeExpr → TypeExpr → Prop) : Prop where
  scalar {word : String} {t : TypeExpr} (h : (word, t) ∈ scalars) : r t t
  ellipsis : r .ellipsis .ellipsis
  literal {values : List Constant} (hValues : values ≠ []) : r (.literal values) (.literal values)
  tagged {s t : TypeExpr} (h : r s t) (tags : List String) : r (.tagged s tags) (.tagged t tags)
  union {ss ts : List TypeExpr} (hArms : ss ≠ []) (h : List.Forall₂ r ss ts) :
    r (.union ss) (.union ts)
  generic {ss ts : List TypeExpr} (origin : Origin) (h : List.Forall₂ r ss ts) :
    r (.generic origin ss) (.generic origin ts)

/-- With no demand on the types, only what the scan finds is left of the statement below. -/
theorem isCongruence_true : IsCongruence fun _ _ => True :=
  ⟨fun _ => trivial, trivial, fun _ => trivial, fun _ _ => trivial, fun _ _ => trivial,
    fun _ _ => trivial⟩

/-- The names mean related types, as far as the scan has found them. -/
def RelatedOn (r : TypeExpr → TypeExpr → Prop) (names names' : Names) (found : List String) : Prop :=
  ∀ path, (isIdentifier path = true → path ∈ found) → Option.Rel r (names path) (names' path)

section

variable {r : TypeExpr → TypeExpr → Prop} {names names' : Names}

/-- What is asked of all names that were found is asked of those in each part of the text. -/
theorem RelatedOn.left {first second : List String} (h : RelatedOn r names names' (first ++ second)) :
    RelatedOn r names names' first :=
  fun path hPath => h path fun hIdentifier => List.mem_append_left _ (hPath hIdentifier)

theorem RelatedOn.right {first second : List String}
    (h : RelatedOn r names names' (first ++ second)) : RelatedOn r names names' second :=
  fun path hPath => h path fun hIdentifier => List.mem_append_right _ (hPath hIdentifier)

/-- The scan follows the text, and where the names it finds are related something
holds. -/
def Follows (r : TypeExpr → TypeExpr → Prop) (names names' : Names) (text rest : List Char)
    (result : Prop) : Prop :=
  ∃ found, Finds text found rest ∧ (RelatedOn r names names' found → result)

/-- Two parts of a text, one behind the other, with what holds of each. -/
theorem Follows.and {text mid rest : List Char} {first second : Prop}
    (h : Follows r names names' text mid first) (h' : Follows r names names' mid rest second) :
    Follows r names names' text rest (first ∧ second) := by
  obtain ⟨found, hFinds, hFirst⟩ := h
  obtain ⟨found', hFinds', hSecond⟩ := h'
  exact ⟨_, hFinds.append hFinds', fun hNames => ⟨hFirst hNames.left, hSecond hNames.right⟩⟩

theorem Follows.imp {text rest : List Char} {first second : Prop}
    (h : Follows r names names' text rest first) (hImp : first → second) :
    Follows r names names' text rest second := by
  obtain ⟨found, hFinds, hFirst⟩ := h
  exact ⟨found, hFinds, fun hNames => hImp (hFirst hNames)⟩

/-- Tokens before and behind a part add names to those that were found, and nothing to what
holds. -/
theorem Follows.behind {text mid rest : List Char} {result : Prop}
    (hStart : ∃ found, Finds text found mid) (h : Follows r names names' mid rest result) :
    Follows r names names' text rest result := by
  obtain ⟨found, hStart⟩ := hStart
  obtain ⟨found', hFinds, hResult⟩ := h
  exact ⟨_, hStart.append hFinds, fun hNames => hResult hNames.right⟩

theorem Follows.before {text mid rest : List Char} {result : Prop}
    (h : Follows r names names' text mid result) (hEnd : ∃ found, Finds mid found rest) :
    Follows r names names' text rest result := by
  obtain ⟨found, hFinds, hResult⟩ := h
  obtain ⟨found', hEnd⟩ := hEnd
  exact ⟨_, hFinds.append hEnd, fun hNames => hResult hNames.left⟩

/-- Where nothing is looked up, the scan is all that matters. -/
theorem follows_of_finds {text rest : List Char} {result : Prop}
    (h : ∃ found, Finds text found rest) (hResult : result) :
    Follows r names names' text rest result := by
  obtain ⟨found, hFinds⟩ := h
  exact ⟨found, hFinds, fun _ => hResult⟩

/-- Elements behind marks, with related types for each of them. -/
theorem follows_items {mark : Char} (hMark : IsMark mark)
    {element : List Char → TypeExpr → List Char → Prop} {text rest : List Char}
    {types : List TypeExpr}
    (hItems : Items mark (fun text t rest => Follows r names names' text rest
      (∃ t', r t t' ∧ element text t' rest)) text types rest) :
    Follows r names names' text rest
      (∃ types', List.Forall₂ r types types' ∧ Items mark element text types' rest) := by
  induction hItems with
  | nil text => exact follows_of_finds ⟨[], .refl text⟩ ⟨[], .nil, .nil text⟩
  | cons hNext hElement _ ih =>
      apply Follows.behind ⟨[], finds_mark hMark hNext⟩
      apply (hElement.and ih).imp
      intro h
      obtain ⟨⟨t', hFirst, hElement⟩, types', hMore, hItems⟩ := h
      exact ⟨t' :: types', .cons hFirst hMore, .cons hNext hElement hItems⟩

theorem follows_brackets {text after inside close rest : List Char} {path : String} {result : Prop}
    (hPath : Spaced tokens.path text path after) (hOpen : Mark '[' after inside)
    (h : Follows r names names' inside close result) (hClose : Mark ']' close rest) :
    Follows r names names' text rest result :=
  .behind ⟨_, finds_path followed_tokens hPath⟩
    (.behind ⟨_, finds_mark ⟨by decide, by decide⟩ hOpen⟩
      (h.before ⟨_, finds_mark isMark_close hClose⟩))

theorem exists_finds_tokens {α : Type} {token : List Char → α → List Char → Prop}
    (hToken : Quiet [] token) {text close rest : List Char} {values : List α}
    (hItems : Items ',' (Spaced token) text values close) (hClose : Mark ']' close rest) :
    ∃ found, Finds text found close := by
  obtain ⟨found, hFinds, _⟩ := finds_tokens hToken hItems hClose
  exact ⟨found, hFinds⟩

/-- A name that means something on one side means something related on the other, and one without a
meaning has none there. -/
theorem exists_of_rel_some {key : String} {t : TypeExpr} (h : names key = some t)
    (hRel : Option.Rel r (names key) (names' key)) : ∃ t', r t t' ∧ names' key = some t' := by
  rw [h] at hRel
  generalize names' key = value at hRel
  cases hRel with
  | some hRelated => exact ⟨_, hRelated, rfl⟩

theorem eq_none_of_rel_none {key : String} (h : names key = none)
    (hRel : Option.Rel r (names key) (names' key)) : names' key = none := by
  rw [h] at hRel
  generalize names' key = value at hRel
  cases hRel with
  | none => rfl

/-- Under the same path a related type is found. -/
theorem related_namePath {path : String} {t : TypeExpr} (hName : NamePath names path t)
    (hNames : RelatedOn r names names' (identifiers path.toList)) :
    ∃ t', r t t' ∧ NamePath names' path t' := by
  have hSelf := hNames path fun hIdentifier => by rw [identifiers_self hIdentifier]; exact .head _
  cases hName with
  | path hWord hOther h =>
      obtain ⟨t', hRelated, h'⟩ := exists_of_rel_some h hSelf
      exact ⟨t', hRelated, .path hWord hOther h'⟩
  | @word word _ hWord hOther hPath h =>
      obtain ⟨t', hRelated, h'⟩ :=
        exists_of_rel_some h (hNames word (mem_identifiers_of_spells hWord))
      exact ⟨t', hRelated, .word hWord hOther (eq_none_of_rel_none hPath hSelf) h'⟩

/-- Related names are read as related types. -/
theorem closed_related (hr : IsCongruence r) :
    Closed tokens names
      (fun text t rest => Follows r names names' text rest
        (∃ t', r t t' ∧ Choice tokens names' text t' rest))
      (fun text t rest => Follows r names names' text rest
        (∃ t', r t t' ∧ Primary tokens names' text t' rest)) where
  single h := by
    apply h.imp
    intro h
    obtain ⟨t', hRelated, h⟩ := h
    exact ⟨t', hRelated, .single h⟩
  several hFirst hMore := by
    apply (hFirst.and (follows_items ⟨by decide, by decide⟩ hMore)).imp
    intro h
    obtain ⟨⟨first', hRelated, hFirst⟩, types', hTypes, hMore⟩ := h
    cases hTypes with
    | cons hSecond hTypes =>
        exact ⟨_, hr.union (List.cons_ne_nil _ _) (.cons hRelated (.cons hSecond hTypes)),
          .several hFirst hMore⟩
  ellipsis h := follows_of_finds ⟨[], finds_ellipsis h⟩ ⟨_, hr.ellipsis, .ellipsis h⟩
  group hOpen h hClose := by
    apply Follows.behind ⟨[], finds_mark ⟨by decide, by decide⟩ hOpen⟩
    apply (h.before ⟨[], finds_mark ⟨by decide, by decide⟩ hClose⟩).imp
    intro h
    obtain ⟨t', hRelated, h⟩ := h
    exact ⟨t', hRelated, .group hOpen h hClose⟩
  literal hPath hForm hOpen hFirst hMore hClose := by
    obtain ⟨_, hFinds, _⟩ := finds_token followed_tokens.constant hFirst
      (stops_of_items hMore hClose)
    obtain ⟨_, hFinds'⟩ := exists_finds_tokens followed_tokens.constant hMore hClose
    exact follows_brackets hPath hOpen (follows_of_finds ⟨_, hFinds.append hFinds'⟩
      ⟨_, hr.literal (List.cons_ne_nil _ _), .literal hPath hForm hOpen hFirst hMore hClose⟩) hClose
  tagged hPath hForm hOpen hInner hTags hClose := by
    have hInside := hInner.before (exists_finds_tokens followed_tokens.tag hTags hClose)
    apply (follows_brackets hPath hOpen hInside hClose).imp
    intro h
    obtain ⟨t', hRelated, hInner⟩ := h
    exact ⟨_, hr.tagged hRelated _, .tagged hPath hForm hOpen hInner hTags hClose⟩
  optional hPath hForm hOpen hInner hClose := by
    apply (follows_brackets hPath hOpen hInner hClose).imp
    intro h
    obtain ⟨t', hRelated, hInner⟩ := h
    have hTable : ("None", TypeExpr.null) ∈ scalars := by simp [scalars]
    exact ⟨_, hr.union (List.cons_ne_nil _ _) (.cons hRelated (.cons (hr.scalar hTable) .nil)),
      .optional hPath hForm hOpen hInner hClose⟩
  union hPath hForm hOpen hFirst hMore hClose := by
    apply (follows_brackets hPath hOpen (hFirst.and (follows_items isMark_comma hMore)) hClose).imp
    intro h
    obtain ⟨⟨first', hRelated, hFirst⟩, types', hTypes, hMore⟩ := h
    exact ⟨_, hr.union (List.cons_ne_nil _ _) (.cons hRelated hTypes),
      .union hPath hForm hOpen hFirst hMore hClose⟩
  scalar hPath hWord hTable :=
    follows_of_finds ⟨_, finds_path followed_tokens hPath⟩
      ⟨_, hr.scalar hTable, .scalar hPath hWord hTable⟩
  bare hPath hOrigin :=
    follows_of_finds ⟨_, finds_path followed_tokens hPath⟩
      ⟨_, hr.generic _ .nil, .bare hPath hOrigin⟩
  generic hPath hOrigin hOpen hFirst hMore hClose := by
    apply (follows_brackets hPath hOpen (hFirst.and (follows_items isMark_comma hMore)) hClose).imp
    intro h
    obtain ⟨⟨first', hRelated, hFirst⟩, types', hTypes, hMore⟩ := h
    exact ⟨_, hr.generic _ (.cons hRelated hTypes),
      .generic hPath hOrigin hOpen hFirst hMore hClose⟩
  name hPath hName := by
    refine ⟨_, finds_path followed_tokens hPath, fun hNames => ?_⟩
    obtain ⟨t', hRelated, hName⟩ := related_namePath hName hNames
    exact ⟨t', hRelated, .name hPath hName⟩

/-- A text is read in the same way where the names that the scan finds in it mean
related types. -/
theorem parse_related (hr : IsCongruence r) {text : String} {t : TypeExpr}
    (hLines : Unbroken text.toList) (hNames : RelatedOn r names names' (words text.toList))
    (h : TypeExpr.parse names text = .ok t) :
    ∃ t', r t t' ∧ TypeExpr.parse names' text = .ok t' := by
  obtain ⟨rest, hChoice, hEnd⟩ := derives_of_parse h
  obtain ⟨found, hFinds, hRead⟩ := (closed_related hr).choice_of hChoice
  have hFound : found = words text.toList := by
    rw [(hFinds.before (finds_skips hEnd)).words hLines, words_nil, List.append_nil]
  obtain ⟨t', hRelated, hChoice'⟩ := hRead (hFound ▸ hNames)
  exact ⟨t', hRelated, parse_of_derives ⟨rest, hChoice', hEnd⟩⟩

/-- The same where all names mean related types, whatever the scan finds. -/
theorem parse_related_of_forall (hr : IsCongruence r)
    (hNames : ∀ path, Option.Rel r (names path) (names' path)) {text : String} {t : TypeExpr}
    (h : TypeExpr.parse names text = .ok t) :
    ∃ t', r t t' ∧ TypeExpr.parse names' text = .ok t' := by
  obtain ⟨rest, hChoice, hEnd⟩ := derives_of_parse h
  obtain ⟨found, _, hRead⟩ := (closed_related hr).choice_of hChoice
  obtain ⟨t', hRelated, hChoice'⟩ := hRead fun path _ => hNames path
  exact ⟨t', hRelated, parse_of_derives ⟨rest, hChoice', hEnd⟩⟩

/-- A property that passes from the parts of a type to the whole. -/
structure IsHereditary (p : TypeExpr → Prop) : Prop where
  scalar {word : String} {t : TypeExpr} (h : (word, t) ∈ scalars) : p t
  ellipsis : p .ellipsis
  literal {values : List Constant} (hValues : values ≠ []) : p (.literal values)
  tagged {t : TypeExpr} (h : p t) (tags : List String) : p (.tagged t tags)
  union {types : List TypeExpr} (hTypes : types ≠ []) (h : ∀ t ∈ types, p t) : p (.union types)
  generic {types : List TypeExpr} (origin : Origin) (h : ∀ t ∈ types, p t) : p (.generic origin types)

/-- Equal members with a property make equal lists of which all members have the property. -/
theorem forall₂_eq_and {α : Type} {p : α → Prop} {as bs : List α}
    (h : List.Forall₂ (fun a b => a = b ∧ p b) as bs) : as = bs ∧ ∀ b ∈ bs, p b := by
  induction h with
  | nil => exact ⟨rfl, nofun⟩
  | cons hHead _ ih =>
      rw [hHead.1, ih.1]
      exact ⟨rfl, List.forall_mem_cons.mpr ⟨hHead.2, ih.2⟩⟩

/-- A property that passes from parts to the whole is a relation between equal types. -/
theorem IsHereditary.isCongruence {p : TypeExpr → Prop} (h : IsHereditary p) :
    IsCongruence fun s t => s = t ∧ p t where
  scalar hTable := ⟨rfl, h.scalar hTable⟩
  ellipsis := ⟨rfl, h.ellipsis⟩
  literal hValues := ⟨rfl, h.literal hValues⟩
  tagged hInner tags := ⟨congrArg (TypeExpr.tagged · tags) hInner.1, h.tagged hInner.2 tags⟩
  union hArms hTypes := by
    obtain ⟨rfl, hTypes⟩ := forall₂_eq_and hTypes
    exact ⟨rfl, h.union hArms hTypes⟩
  generic origin hTypes := by
    obtain ⟨rfl, hTypes⟩ := forall₂_eq_and hTypes
    exact ⟨rfl, h.generic origin hTypes⟩

/-- What is read has such a property if all that names mean has it. -/
theorem parse_hereditary {p : TypeExpr → Prop} (hp : IsHereditary p)
    (hNames : ∀ path t, names path = some t → p t) {text : String} {t : TypeExpr}
    (h : TypeExpr.parse names text = .ok t) : p t := by
  have hSelf (path : String) :
      Option.Rel (fun s t => s = t ∧ p t) (names path) (names path) := by
    cases hPath : names path with
    | none => exact .none
    | some t => exact .some ⟨rfl, hNames path t hPath⟩
  obtain ⟨_, ⟨rfl, ht⟩, _⟩ := parse_related_of_forall hp.isCongruence hSelf h
  exact ht

end

end ToolSchema.Manifest
