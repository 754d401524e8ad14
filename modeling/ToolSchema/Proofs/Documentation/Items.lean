import ToolSchema.Proofs.Documentation.Margin
import ToolSchema.Proofs.Documentation.Sections
import ToolSchema.Proofs.Manifest.Words

/-! A parameter with a hint as each layout writes it down, and how the layout reads it. -/
namespace ToolSchema.Documentation

open Text

/-- A parameter that documentation describes: its name and the lines of its hint. -/
structure Param where
  name : String
  first : List Char
  more : List (List Char)

namespace Param

def hint (param : Param) : List (List Char) := param.first :: param.more

/-- The name and the first line of the hint. -/
def label (param : Param) : List Char := param.name.toList ++ ':' :: ' ' :: param.first

/-- The item of a layout that marks its items. -/
def field (param : Param) : Field := ⟨"param", none, some param.name, ' ' :: param.first⟩

/-- The line that starts an item in each layout. -/
def head (param : Param) : Layout → List Char
  | .google => indent 4 param.label
  | .rest => ':' :: ("param".toList ++ ' ' :: param.label)
  | .epydoc => '@' :: ("param".toList ++ ' ' :: param.label)
  | .numpy => param.name.toList

/-- The lines that continue an item in each layout. -/
def tail (param : Param) : Layout → List (List Char)
  | .google => param.more.map (indent 8)
  | .rest => param.more.map (indent 4)
  | .epydoc => param.more.map (indent 4)
  | .numpy => param.hint.map (indent 4)

def block (layout : Layout) (param : Param) : List Char × List (List Char) :=
  (param.head layout, param.tail layout)

/-- What every layout reads of the parameter. -/
def entry (param : Param) : Entry := ⟨param.name, none, some (.ofList (unlines param.hint))⟩

/-- The name is an identifier, and every line of the hint holds something, has no white space at its
ends and is no underline. -/
structure WellFormed (param : Param) : Prop where
  name : Manifest.isIdentifier param.name = true
  trimmed : ∀ line ∈ param.hint, trim line = line ∧ line ≠ []
  written : ∀ line ∈ param.hint, Written line
  underline : ∀ line ∈ param.hint, isUnderline line = false

instance (param : Param) : Decidable param.WellFormed :=
  decidable_of_iff (Manifest.isIdentifier param.name = true ∧
      (∀ line ∈ param.hint, trim line = line ∧ line ≠ []) ∧
      (∀ line ∈ param.hint, Written line) ∧ ∀ line ∈ param.hint, isUnderline line = false)
    ⟨fun ⟨hName, hTrimmed, hWritten, hUnderline⟩ => ⟨hName, hTrimmed, hWritten, hUnderline⟩,
      fun h => ⟨h.name, h.trimmed, h.written, h.underline⟩⟩

end Param

theorem nonempty?_of_ne_nil {text : List Char} (h : text ≠ []) :
    nonempty? text = some (.ofList text) :=
  if_neg fun hEmpty => h (List.isEmpty_iff.mp hEmpty)

/-! Names -/

section

variable {name : String} {c : Char}

/-- The characters of an identifier, which all layouts rely on: none of them is blank or a mark of a
layout. -/
theorem isNamePart_of_mem (h : Manifest.isIdentifier name = true) (hm : c ∈ name.toList) :
    Manifest.isNamePart c = true := by
  rw [Manifest.isIdentifier, Bool.and_eq_true, List.all_eq_true] at h
  exact h.2 c hm

/-- An identifier is not empty. It begins with a letter or an underscore. -/
theorem exists_cons_of_isIdentifier (h : Manifest.isIdentifier name = true) :
    ∃ c rest, name.toList = c :: rest ∧ isAsciiLetter c = true := by
  rw [Manifest.isIdentifier, Bool.and_eq_true] at h
  cases hList : name.toList with
  | nil =>
      rw [hList] at h
      cases h.1
  | cons c rest =>
      rw [hList] at h
      exact ⟨c, rest, rfl, h.1⟩

theorem isBlank_of_isNamePart (h : Manifest.isNamePart c = true) : isBlank c = false := by
  refine Bool.eq_false_iff.mpr fun hBlank => ?_
  rw [Manifest.not_isNamePart_of_isBlank hBlank] at h
  cases h

theorem isWord_of_isNamePart (h : Manifest.isNamePart c = true) : isWord c = true := by
  have hAscii : c.toNat < 0x80 := by
    rw [Manifest.isNamePart_iff] at h
    omega
  rw [isWord, if_pos hAscii]
  exact h

theorem ne_of_isNamePart (h : Manifest.isNamePart c = true) {mark : Char}
    (hMark : Manifest.isNamePart mark = false) : c ≠ mark := by
  rintro rfl
  rw [h] at hMark
  cases hMark

theorem notMem_name (h : Manifest.isIdentifier name = true) {mark : Char}
    (hMark : Manifest.isNamePart mark = false) : mark ∉ name.toList :=
  fun hm => ne_of_isNamePart (isNamePart_of_mem h hm) hMark rfl

theorem toList_ne_nil_of_isIdentifier (h : Manifest.isIdentifier name = true) :
    name.toList ≠ [] := by
  obtain ⟨c, rest, hList, -⟩ := exists_cons_of_isIdentifier h
  rw [hList]
  exact List.cons_ne_nil c rest

theorem isBlank_of_mem_name (h : Manifest.isIdentifier name = true) (hm : c ∈ name.toList) :
    isBlank c = false :=
  isBlank_of_isNamePart (isNamePart_of_mem h hm)

theorem opens_name (h : Manifest.isIdentifier name = true) : Opens name.toList :=
  opens_of_forall (toList_ne_nil_of_isIdentifier h) fun _ => isBlank_of_mem_name h

theorem closes_name (h : Manifest.isIdentifier name = true) : Closes name.toList :=
  closes_of_forall (toList_ne_nil_of_isIdentifier h) fun _ => isBlank_of_mem_name h

theorem trim_name (h : Manifest.isIdentifier name = true) : trim name.toList = name.toList :=
  trim_eq_self (opens_name h) (closes_name h)

/-- No name starts with a star. -/
theorem bareName_name (h : Manifest.isIdentifier name = true) : bareName name.toList = name := by
  obtain ⟨c, rest, hList, -⟩ := exists_cons_of_isIdentifier h
  have hStar : c ≠ '*' := ne_of_isNamePart (isNamePart_of_mem h (hList ▸ List.mem_cons_self))
    (by decide)
  have hDrop : name.toList.dropWhile (· == '*') = name.toList := by
    rw [hList]
    exact List.dropWhile_cons_of_neg fun he => hStar (eq_of_beq he)
  rw [bareName, hDrop, String.ofList_toList]

end

namespace Param

variable {param : Param}

/-! Hints -/

theorem opens_hint (h : param.WellFormed) {line : List Char} (hm : line ∈ param.hint) :
    Opens line :=
  (opens_closes_of_trim_eq (h.trimmed line hm).1 (h.trimmed line hm).2).1

theorem closes_hint (h : param.WellFormed) {line : List Char} (hm : line ∈ param.hint) :
    Closes line :=
  (opens_closes_of_trim_eq (h.trimmed line hm).1 (h.trimmed line hm).2).2

theorem first_mem (param : Param) : param.first ∈ param.hint := List.mem_cons_self

theorem opens_label (h : param.WellFormed) : Opens param.label := (opens_name h.name).append _

theorem closes_label (h : param.WellFormed) : Closes param.label :=
  ((closes_hint h param.first_mem).behind [':', ' ']).behind _

theorem unlines_hint_ne_nil (h : param.WellFormed) : unlines param.hint ≠ [] :=
  ((opens_hint h param.first_mem).unlines param.more).ne_nil

/-- The hint starts on the line of the name, after a space, and goes on below it. -/
theorem itemDescription_beside (h : param.WellFormed) (width : Nat) :
    itemDescription (' ' :: param.first) (param.more.map (indent width)) =
      some (.ofList (unlines param.hint)) := by
  have hFirst : trim (' ' :: param.first) = param.first :=
    trim_indent 1 (opens_hint h param.first_mem) (closes_hint h param.first_mem)
  have hMore : ∀ line ∈ param.more, line ∈ param.hint := fun _ => List.mem_cons_of_mem _
  have hDedent := dedent_indent width (fun line hm => opens_hint h (hMore line hm))
    fun line hm => closes_hint h (hMore line hm)
  have hOpens := opens_hint h param.first_mem
  rw [← nonempty?_of_ne_nil (unlines_hint_ne_nil h), itemDescription, hFirst, hDedent]
  refine congrArg nonempty? ?_
  rw [if_neg fun hEmpty => hOpens.ne_nil (List.isEmpty_iff.mp hEmpty)]
  by_cases hNone : param.more = []
  · rw [hint, hNone]
    rfl
  · have hText : unlines param.more ≠ [] := by
      obtain ⟨line, more, hList⟩ := List.exists_cons_of_ne_nil hNone
      rw [hList]
      exact ((opens_hint h (hMore line (hList ▸ List.mem_cons_self))).unlines more).ne_nil
    rw [if_neg fun hEmpty => hText (List.isEmpty_iff.mp hEmpty), hint, unlines_cons hNone]

/-- The hint stands below the line of the name. -/
theorem itemDescription_below (h : param.WellFormed) (width : Nat) :
    itemDescription [] (param.hint.map (indent width)) = some (.ofList (unlines param.hint)) := by
  rw [← nonempty?_of_ne_nil (unlines_hint_ne_nil h), itemDescription,
    dedent_indent width (fun _ => opens_hint h) fun _ => closes_hint h]
  rfl

/-! Items -/

/-- The name of a label ends at its colon, whatever set of characters a layout allows in names. -/
theorem span_label (h : param.WellFormed) {p : Char → Bool}
    (hPart : ∀ c, Manifest.isNamePart c = true → p c = true) (hMark : p ':' = false) :
    param.label.takeWhile p = param.name.toList ∧
      param.label.dropWhile p = ':' :: ' ' :: param.first :=
  span_append_cons (fun c hm => hPart c (isNamePart_of_mem h.name hm)) hMark

/-- What each layout makes of the lines of an item: in all of them the entry of the parameter comes
out. -/
theorem googleItem?_head (h : param.WellFormed) :
    googleItem? (param.head .google) (param.tail .google) = some param.entry := by
  obtain ⟨c, rest, hList, hLetter⟩ := exists_cons_of_isIdentifier h.name
  have hTrim : trim (param.head .google) = param.label :=
    trim_indent 4 (opens_label h) (closes_label h)
  have hStars : (param.label.take 2).takeWhile (· == '*') = [] := by
    have hStar : c ≠ '*' :=
      ne_of_isNamePart (isNamePart_of_mem h.name (hList ▸ List.mem_cons_self)) (by decide)
    rw [label, hList]
    exact List.takeWhile_cons_of_neg fun he => hStar (eq_of_beq he)
  have hWord := (span_label h (p := fun c => isWord c || c == '.')
    (fun c hc => by rw [isWord_of_isNamePart hc, Bool.true_or]) (by decide)).1
  have hDrop : param.label.drop (0 + param.name.toList.length) = ':' :: ' ' :: param.first := by
    rw [Nat.zero_add, label, List.drop_left]
  have hHead : param.name.toList.head?.any isAsciiLetter = true := by
    rw [hList]
    exact hLetter
  simp only [googleItem?, hTrim, hStars, List.length_nil, List.drop_zero, hWord, hHead, if_true,
    hDrop]
  change some (Entry.mk (bareName param.name.toList) none
    (itemDescription (' ' :: param.first) (param.more.map (indent 8)))) = _
  rw [bareName_name h.name, itemDescription_beside h]
  rfl

/-- A name without a type before it is the last word and all there is. -/
theorem lastWord_name (h : Manifest.isIdentifier param.name = true) :
    lastWord param.name.toList = (param.name.toList, []) := by
  have hWord : ∀ c ∈ param.name.toList.reverse, (!isBlank c) = true := by
    intro c hm
    rw [isBlank_of_mem_name h (List.mem_reverse.mp hm)]
    rfl
  rw [lastWord, List.takeWhile_eq_self_iff.mpr hWord, List.dropWhile_eq_nil_iff.mpr hWord,
    List.reverse_reverse]
  rfl

/-- The tag stands before the name, the hint behind the colon. -/
theorem field?_head (h : param.WellFormed) {style : FieldStyle}
    (hTag : style.tags.contains "param" = true) :
    field? style (style.marker :: ("param".toList ++ ' ' :: param.label)) =
      some param.field := by
  have hColon : ∀ c ∈ ' ' :: param.name.toList, (c != ':') = true := by
    refine List.forall_mem_cons.mpr ⟨by decide, fun c hm => ?_⟩
    exact bne_iff_ne.mpr (ne_of_isNamePart (isNamePart_of_mem h.name hm) (by decide))
  have hTagSpan : ("param".toList ++ ' ' :: param.label).takeWhile
        (fun c => !isBlank c && c != ':') = "param".toList ∧
      ("param".toList ++ ' ' :: param.label).dropWhile
        (fun c => !isBlank c && c != ':') = ' ' :: param.label :=
    span_append_cons (List.all_eq_true.mp (by decide)) (by decide)
  have hNameSpan : (' ' :: param.label).takeWhile (· != ':') = ' ' :: param.name.toList ∧
      (' ' :: param.label).dropWhile (· != ':') = ':' :: ' ' :: param.first :=
    span_append_cons hColon (by decide)
  have hTrim : trim (' ' :: param.name.toList) = param.name.toList :=
    trim_indent 1 (opens_name h.name) (closes_name h.name)
  have hMarked : isMarked style.marker
      (style.marker :: ("param".toList ++ ' ' :: param.label)) = true :=
    beq_self_eq_true _
  simp only [field?, hTagSpan, hNameSpan, hTrim, lastWord_name h.name, hMarked,
    String.ofList_toList, hTag, nonempty?_of_ne_nil (toList_ne_nil_of_isIdentifier h.name)]
  rfl

theorem splitAt_eq_singleton {mark : Char} {text : List Char} (h : mark ∉ text) :
    splitAt mark text = [text] := by
  induction text with
  | nil => rfl
  | cons c rest ih =>
      rw [List.mem_cons, not_or] at h
      rw [splitAt, if_neg (Ne.symm h.1), ih h.2]

/-- The name has its own line, and all of the hint is below it. -/
theorem numpyItem_head (h : param.WellFormed) :
    numpyItem (param.head .numpy) (param.tail .numpy) = [param.entry] := by
  have hTrim : trim (param.head .numpy) = param.name.toList := trim_name h.name
  have hColon : ∀ c ∈ param.name.toList, (c != ':') = true := fun c hm =>
    bne_iff_ne.mpr (ne_of_isNamePart (isNamePart_of_mem h.name hm) (by decide))
  have hComma : ',' ∉ param.name.toList := notMem_name h.name (by decide)
  have hPieces : [param.name.toList].filter (fun name => !name.isEmpty) = [param.name.toList] := by
    refine List.filter_cons_of_pos ?_
    rw [List.isEmpty_eq_false_iff.mpr (toList_ne_nil_of_isIdentifier h.name)]
    rfl
  simp only [numpyItem, hTrim, List.takeWhile_eq_self_iff.mpr hColon,
    List.dropWhile_eq_nil_iff.mpr hColon, splitAt_eq_singleton hComma, List.map_cons, List.map_nil,
    trim_name h.name, hPieces, bareName_name h.name]
  rw [tail, itemDescription_below h]
  rfl

/-! The lines of an item as they are written down -/

theorem notMem_indent {c : Char} (h : c ≠ ' ') (width : Nat) : c ∉ List.replicate width ' ' :=
  fun hm => h (List.mem_replicate.mp hm).2

theorem written_name (h : Manifest.isIdentifier param.name = true) :
    Written param.name.toList where
  feeds := notMem_name h (by decide)
  tabs := notMem_name h (by decide)
  ends := (closes_name h).trimEnd_eq

theorem written_label (h : param.WellFormed) : Written param.label := by
  have hFirst := h.written param.first param.first_mem
  have hCloses := closes_hint h param.first_mem
  have hName := written_name h.name
  have hColon := hFirst.behind hCloses [':', ' '] (by decide) (by decide)
  exact hColon.behind (hCloses.behind [':', ' ']) _ hName.feeds hName.tabs

/-- No layout leaves white space at the end of a line that starts an item. -/
theorem closes_head (h : param.WellFormed) (layout : Layout) : Closes (param.head layout) := by
  cases layout with
  | google => exact (closes_label h).behind _
  | rest => exact (closes_label h).behind ":param ".toList
  | epydoc => exact (closes_label h).behind "@param ".toList
  | numpy => exact closes_name h.name

theorem written_head (h : param.WellFormed) (layout : Layout) : Written (param.head layout) := by
  have hLabel := (written_label h).behind (closes_label h)
  cases layout with
  | google => exact hLabel _ (notMem_indent (by decide) 4) (notMem_indent (by decide) 4)
  | rest => exact hLabel ":param ".toList (by decide) (by decide)
  | epydoc => exact hLabel "@param ".toList (by decide) (by decide)
  | numpy => exact written_name h.name

/-- Every line that continues an item is an indented line of the hint. -/
theorem exists_indent_of_mem_tail {layout : Layout} {line : List Char}
    (hm : line ∈ param.tail layout) :
    ∃ inner ∈ param.hint, ∃ width, line = indent (width + 1) inner := by
  have hMore : ∀ line ∈ param.more, line ∈ param.hint := fun _ => List.mem_cons_of_mem _
  cases layout <;> obtain ⟨inner, hInner, rfl⟩ := List.mem_map.mp hm
  case google => exact ⟨inner, hMore inner hInner, 7, rfl⟩
  case rest => exact ⟨inner, hMore inner hInner, 3, rfl⟩
  case epydoc => exact ⟨inner, hMore inner hInner, 3, rfl⟩
  case numpy => exact ⟨inner, hInner, 3, rfl⟩

theorem closes_tail (h : param.WellFormed) {layout : Layout} {line : List Char}
    (hm : line ∈ param.tail layout) : Closes line := by
  obtain ⟨inner, hInner, width, rfl⟩ := exists_indent_of_mem_tail hm
  exact (closes_hint h hInner).behind _

theorem written_tail (h : param.WellFormed) {layout : Layout} {line : List Char}
    (hm : line ∈ param.tail layout) : Written line := by
  obtain ⟨inner, hInner, width, rfl⟩ := exists_indent_of_mem_tail hm
  exact (h.written inner hInner).behind (closes_hint h hInner) _ (notMem_indent (by decide) _)
    (notMem_indent (by decide) _)

/-! Marks of the layouts in the lines of an item -/

/-- An indented line can only bear the mark of the layout that underlines. -/
theorem bears_indent {line : List Char} (hOpens : Opens line) (hCloses : Closes line)
    (hUnderline : isUnderline line = false) (width : Nat) (layout : Layout) :
    bears (indent (width + 1) line) layout = false := by
  cases layout with
  | google => exact bears_google_of_not_isAlpha (by decide) _
  | rest => rfl
  | epydoc => rfl
  | numpy =>
      change isUnderline (indent (width + 1) line) = false
      rw [isUnderline, trim_indent _ hOpens hCloses, ← trim_eq_self hOpens hCloses, ← isUnderline,
        hUnderline]

/-- The lines that continue an item are indented, so no layout takes them for a mark of its own. -/
theorem bears_tail (h : param.WellFormed) {layout : Layout} {line : List Char}
    (hm : line ∈ param.tail layout) (other : Layout) : bears line other = false := by
  obtain ⟨inner, hInner, width, rfl⟩ := exists_indent_of_mem_tail hm
  exact bears_indent (opens_hint h hInner) (closes_hint h hInner) (h.underline inner hInner) width
    other

theorem colon_mem_label (param : Param) : ':' ∈ param.label :=
  List.mem_append_right _ List.mem_cons_self

/-- A name alone on its line is a mark for no layout. -/
theorem bears_head_numpy (h : param.WellFormed) (layout : Layout) :
    bears (param.head .numpy) layout = false := by
  obtain ⟨c, rest, hList, hLetter⟩ := exists_cons_of_isIdentifier h.name
  have hPart := isNamePart_of_mem h.name (hList ▸ List.mem_cons_self)
  have hMarked : ∀ marker, Manifest.isNamePart marker = false →
      isMarked marker param.name.toList = false := by
    intro marker hMarker
    rw [isMarked, hList]
    exact beq_eq_false_iff_ne.mpr fun he => ne_of_isNamePart hPart hMarker (Option.some.inj he)
  cases layout with
  | google => exact congrArg Option.isSome (googleTitle?_of_notMem (notMem_name h.name (by decide)))
  | rest => exact hMarked ':' (by decide)
  | epydoc => exact hMarked '@' (by decide)
  | numpy =>
      have hm : c ∈ param.name.toList := hList ▸ List.mem_cons_self
      exact isUnderline_of_mem hm (isBlank_of_isNamePart hPart) (ne_of_isNamePart hPart (by decide))

theorem bears_head_google (h : param.WellFormed) (layout : Layout) :
    bears (param.head .google) layout = false :=
  bears_indent (opens_label h) (closes_label h)
    (isUnderline_of_mem param.colon_mem_label (by decide) (by decide)) 3 layout

/-- The line that starts an item bears no mark of another layout. -/
theorem bears_head (h : param.WellFormed) {layout other : Layout} (hOther : other ≠ layout) :
    bears (param.head layout) other = false := by
  have hUnderline (front : List Char) : isUnderline (front ++ param.label) = false :=
    isUnderline_of_mem (List.mem_append_right _ param.colon_mem_label) (by decide) (by decide)
  cases layout with
  | google => exact bears_head_google h other
  | rest =>
      cases other with
      | google => exact bears_google_of_not_isAlpha rfl _
      | rest => exact absurd rfl hOther
      | epydoc => rfl
      | numpy => exact hUnderline ":param ".toList
  | epydoc =>
      cases other with
      | google => exact bears_google_of_not_isAlpha rfl _
      | rest => rfl
      | epydoc => exact absurd rfl hOther
      | numpy => exact hUnderline "@param ".toList
  | numpy => exact bears_head_numpy h other

/-! Indentation of the lines of an item -/

theorem continues_indent {line : List Char} (hOpens : Opens line) {width deeper : Nat}
    (hWidth : width < deeper) : continues width (indent deeper line) = true := by
  rw [continues, indentOf_indent deeper hOpens, decide_eq_true hWidth, Bool.or_true]

/-- Items of the first layout start at four spaces and go on at eight. -/
theorem google_start (h : param.WellFormed) :
    allBlank (param.head .google) = false ∧ indentOf (param.head .google) = 4 :=
  ⟨allBlank_indent (opens_label h), indentOf_indent 4 (opens_label h)⟩

theorem google_continues (h : param.WellFormed) {line : List Char}
    (hm : line ∈ param.tail .google) : continues 4 line = true := by
  obtain ⟨inner, hInner, rfl⟩ := List.mem_map.mp hm
  exact continues_indent (opens_hint h (List.mem_cons_of_mem _ hInner)) (by decide)

/-- Those with their name on a line of its own start at the margin and go on at four. -/
theorem numpy_start (h : param.WellFormed) :
    allBlank (param.head .numpy) = false ∧ indentOf (param.head .numpy) = 0 :=
  ⟨allBlank_of_opens (opens_name h.name), indentOf_of_opens (opens_name h.name)⟩

theorem numpy_continues (h : param.WellFormed) {line : List Char}
    (hm : line ∈ param.tail .numpy) : continues 0 line = true := by
  obtain ⟨inner, hInner, rfl⟩ := List.mem_map.mp hm
  exact continues_indent (opens_hint h hInner) (by decide)

/-! Several items -/

/-- A name that is new comes behind all others. -/
theorem upsert_of_notMem {entries : List Entry} {name : String}
    (h : ∀ entry ∈ entries, entry.name ≠ name) (change : Entry → Entry) :
    upsert entries name change = entries ++ [change ⟨name, none, none⟩] := by
  induction entries with
  | nil => rfl
  | cons entry entries ih =>
      rw [List.forall_mem_cons] at h
      rw [upsert, if_neg h.1, ih h.2]
      rfl

/-- A field for a name of its own adds an entry at the end. -/
theorem addField_head (h : param.WellFormed) {entries : List Entry}
    (hNew : ∀ entry ∈ entries, entry.name ≠ param.name) (width : Nat) :
    addField entries param.field (param.more.map (indent width)) = entries ++ [param.entry] := by
  have hParam : paramTags.contains "param" = true := by decide
  have hType : ¬ "param" = "type" := by decide
  simp only [addField, field, itemDescription_beside h, if_neg hType, hParam, if_true,
    upsert_of_notMem hNew]
  rfl

/-- Items of different parameters are added one after the other, by induction on the list. -/
theorem foldl_addField {params : List Param} (hParams : ∀ param ∈ params, param.WellFormed)
    (hNames : (params.map (·.name)).Nodup) (width : Nat) (entries : List Entry)
    (hNew : ∀ param ∈ params, ∀ entry ∈ entries, entry.name ≠ param.name) :
    (params.map fun param => (param.field, param.more.map (indent width))).foldl
      (fun entries item => addField entries item.1 item.2) entries =
      entries ++ params.map entry := by
  induction params generalizing entries with
  | nil => exact (List.append_nil entries).symm
  | cons param params ih =>
      rw [List.forall_mem_cons] at hParams hNew
      rw [List.map_cons, List.nodup_cons] at hNames
      have hRest : ∀ other ∈ params, ∀ entry ∈ entries ++ [param.entry],
          entry.name ≠ other.name := by
        intro other hm entry hEntry
        rcases List.mem_append.mp hEntry with hOld | hOne
        · exact hNew.2 other hm entry hOld
        · rw [List.mem_singleton.mp hOne]
          exact fun he => hNames.1 (List.mem_map.mpr ⟨other, hm, he.symm⟩)
      rw [List.map_cons, List.foldl_cons]
      change List.foldl _ (addField entries _ _) _ = _
      rw [addField_head hParams.1 hNew.1, ih hParams.2 hNames.2 _ hRest, List.append_assoc]
      rfl

end Param

end ToolSchema.Documentation
