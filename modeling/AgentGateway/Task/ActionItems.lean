import AgentGateway.Library.Json.Value
import AgentGateway.Library.Split

/-!
# Action items

The items that `extract-action-items` reads from the lines of a task input, and
the grammar of those lines.
-/

namespace AgentGateway.Task

open Json (Value)
open Split (Lines lines pieces trim)

/-! ## Parsing -/

def separator : List Char := " | ".toList

def literalActionField (value : List Char) (maximum : ℕ) : Bool :=
  value ≠ [] && (String.ofList value).utf8ByteSize ≤ maximum &&
    value = trim value

structure ActionItem where
  text : String
  owner : String
  due : String
deriving DecidableEq

def ActionItem.value (item : ActionItem) : Value :=
  .object [("text", .str item.text), ("owner", .str item.owner),
    ("due", .str item.due)]

/-- The text, owner and due part of a line, once the labels are taken off. -/
def actionFields (text owner due : List Char) : Option ActionItem := do
  let owner ← "owner: ".toList.isPrefixOf? owner
  let due ← "due: ".toList.isPrefixOf? due
  if literalActionField text 2000 && literalActionField owner 256 &&
      literalActionField due 256 then
    some ⟨String.ofList text, String.ofList owner, String.ofList due⟩
  else none

/-- A line has exactly three parts. -/
def itemOfParts : List (List Char) → Option ActionItem
  | [text, owner, due] => actionFields text owner due
  | _ => none

def parseActionItem (line : List Char) : Option ActionItem := do
  let rest ← "- ".toList.isPrefixOf? line
  itemOfParts (pieces separator rest)

def actionItems (input : String) : List ActionItem :=
  ((lines input.toList).filterMap parseActionItem).take 20

/-! ## The grammar of lines -/

/-- A field of an item: not empty, of bounded length and without whitespace at
its ends. -/
structure Literal (field : String) (maximum : ℕ) : Prop where
  ne_empty : field.toList ≠ []
  short : field.utf8ByteSize ≤ maximum
  front : ∀ a, field.toList.head? = some a → Split.isWhitespace a = false
  back : ∀ a, field.toList.getLast? = some a → Split.isWhitespace a = false

theorem literalActionField_iff {field : String} {maximum : ℕ} :
    literalActionField field.toList maximum = true ↔
      Literal field maximum := by
  simp only [literalActionField, Bool.and_eq_true, decide_eq_true_eq,
    String.ofList_toList, eq_comm (a := field.toList) (b := trim field.toList),
    Split.trim_eq_self]
  constructor
  · rintro ⟨⟨hne, hshort⟩, hfront, hback⟩
    exact ⟨hne, hshort, hfront, hback⟩
  · rintro ⟨hne, hshort, hfront, hback⟩
    exact ⟨⟨hne, hshort⟩, hfront, hback⟩

/-- Where a separator begins in the field or in what stands beside it. -/
structure Unambiguous (item : ActionItem) : Prop where
  text : ¬separator <:+: item.text.toList ++ " |".toList
  owner : ¬separator <:+: "owner: ".toList ++ item.owner.toList ++ " |".toList
  due : ¬separator <:+: "due: ".toList ++ item.due.toList

/-- The line that states an item. -/
def ActionItem.line (item : ActionItem) : List Char :=
  "- ".toList ++ item.text.toList ++ " | owner: ".toList ++
    item.owner.toList ++ " | due: ".toList ++ item.due.toList

/-- The fields of an item are in order. -/
structure ActionItem.Literal (item : ActionItem) : Prop where
  text : Task.Literal item.text 2000
  owner : Task.Literal item.owner 256
  due : Task.Literal item.due 256

/-- A line that states an item of the grammar. -/
structure ActionLine (line : List Char) (item : ActionItem) : Prop where
  literal : item.Literal
  unambiguous : Unambiguous item
  line_eq : line = item.line

theorem separator_ne_nil : separator ≠ [] := by decide

theorem separator_dropLast : separator.dropLast = " |".toList := by decide

theorem isPrefixOf?_eq_some {l s r : List Char} :
    l.isPrefixOf? s = some r ↔ s = l ++ r := by
  induction l generalizing s with
  | nil => simp [List.isPrefixOf?, eq_comm]
  | cons a l ih =>
      cases s with
      | nil => simp [List.isPrefixOf?]
      | cons b s =>
          by_cases h : a = b
          · simp [List.isPrefixOf?, h, ih]
          · simp [List.isPrefixOf?, h, Ne.symm h]

theorem actionFields_eq_some {text owner due : List Char} {item : ActionItem} :
    actionFields text owner due = some item ↔ item.Literal ∧
      text = item.text.toList ∧ owner = "owner: ".toList ++ item.owner.toList ∧
        due = "due: ".toList ++ item.due.toList := by
  simp only [actionFields, Option.bind_eq_bind, Option.bind_eq_some_iff,
    isPrefixOf?_eq_some, Option.ite_none_right_eq_some, Bool.and_eq_true,
    Option.some.injEq]
  constructor
  · rintro ⟨o, rfl, d, rfl, ⟨⟨htext, howner⟩, hdue⟩, rfl⟩
    refine ⟨⟨?_, ?_, ?_⟩, ?_, ?_, ?_⟩
    · exact literalActionField_iff.mp (by simpa using htext)
    · exact literalActionField_iff.mp (by simpa using howner)
    · exact literalActionField_iff.mp (by simpa using hdue)
    · simp
    · simp
    · simp
  · rintro ⟨⟨htext, howner, hdue⟩, rfl, rfl, rfl⟩
    refine ⟨_, rfl, _, rfl, ⟨⟨?_, ?_⟩, ?_⟩, ?_⟩
    · exact literalActionField_iff.mpr htext
    · exact literalActionField_iff.mpr howner
    · exact literalActionField_iff.mpr hdue
    · simp

theorem itemOfParts_eq_some {parts : List (List Char)} {item : ActionItem} :
    itemOfParts parts = some item ↔ ∃ text owner due,
      parts = [text, owner, due] ∧ actionFields text owner due = some item := by
  constructor
  · fun_cases itemOfParts parts with
    | case1 text owner due => exact fun h => ⟨text, owner, due, rfl, h⟩
    | case2 => exact fun h => nomatch h
  · rintro ⟨text, owner, due, rfl, h⟩
    exact h

/-- Three pieces come from the two leftmost separators. -/
theorem pieces_eq_three {rest text owner due : List Char} :
    pieces separator rest = [text, owner, due] ↔
      rest = text ++ (separator ++ (owner ++ (separator ++ due))) ∧
        Split.Clean separator text ∧ Split.Clean separator owner ∧
          ¬separator <:+: due := by
  rw [Split.pieces_eq_cons_cons separator_ne_nil]
  constructor
  · rintro ⟨r, rfl, htext, hr⟩
    obtain ⟨r', rfl, howner, hr'⟩ :=
      (Split.pieces_eq_cons_cons separator_ne_nil).mp hr
    obtain ⟨rfl, hdue⟩ := (Split.pieces_eq_singleton separator_ne_nil).mp hr'
    exact ⟨rfl, htext, howner, hdue⟩
  · rintro ⟨rfl, htext, howner, hdue⟩
    refine ⟨_, rfl, htext, ?_⟩
    exact (Split.pieces_eq_cons_cons separator_ne_nil).mpr ⟨_, rfl, howner,
      Split.pieces_of_absent hdue⟩

theorem line_eq_append (item : ActionItem) :
    item.line = "- ".toList ++ (item.text.toList ++ (separator ++
      ("owner: ".toList ++ item.owner.toList ++ (separator ++
        ("due: ".toList ++ item.due.toList))))) := by
  simp [ActionItem.line, separator]

theorem unambiguous_iff {item : ActionItem} :
    Unambiguous item ↔ Split.Clean separator item.text.toList ∧
      Split.Clean separator ("owner: ".toList ++ item.owner.toList) ∧
        ¬separator <:+: "due: ".toList ++ item.due.toList := by
  rw [Split.Clean, Split.Clean, separator_dropLast]
  constructor
  · rintro ⟨htext, howner, hdue⟩
    exact ⟨htext, howner, hdue⟩
  · rintro ⟨htext, howner, hdue⟩
    exact ⟨htext, howner, hdue⟩

/-- The parser reads an item from exactly the line that states it. -/
theorem parseActionItem_eq_some {line : List Char} {item : ActionItem} :
    parseActionItem line = some item ↔ ActionLine line item := by
  simp only [parseActionItem, Option.bind_eq_bind, Option.bind_eq_some_iff,
    isPrefixOf?_eq_some, itemOfParts_eq_some, actionFields_eq_some,
    pieces_eq_three]
  constructor
  · rintro ⟨rest, rfl, text, owner, due, ⟨rfl, hclean⟩, hliteral, rfl, rfl,
      rfl⟩
    exact ⟨hliteral, unambiguous_iff.mpr hclean, (line_eq_append item).symm⟩
  · rintro ⟨hliteral, hclean, rfl⟩
    exact ⟨_, line_eq_append item, _, _, _,
      ⟨rfl, unambiguous_iff.mp hclean⟩, hliteral, rfl, rfl, rfl⟩

/-- A line states at most one item. -/
theorem ActionLine.unique {line : List Char} {item item' : ActionItem}
    (h : ActionLine line item) (h' : ActionLine line item') : item = item' := by
  rw [← parseActionItem_eq_some] at h h'
  exact Option.some.inj (h.symm.trans h')

/-! ## Extraction -/

/-- The items that the lines of a text state, in order. -/
inductive Extracts : List (List Char) → List ActionItem → Prop
  | nil : Extracts [] []
  | item {line : List Char} {lines : List (List Char)} {item : ActionItem}
      {items : List ActionItem} : ActionLine line item →
        Extracts lines items → Extracts (line :: lines) (item :: items)
  | other {line : List Char} {lines : List (List Char)}
      {items : List ActionItem} : (∀ item, ¬ActionLine line item) →
        Extracts lines items → Extracts (line :: lines) items

theorem extracts_filterMap (ls : List (List Char)) :
    Extracts ls (ls.filterMap parseActionItem) := by
  induction ls with
  | nil => exact .nil
  | cons l ls ih =>
      cases hparse : parseActionItem l with
      | none =>
          rw [List.filterMap_cons_none hparse]
          refine .other (fun item hline => ?_) ih
          rw [parseActionItem_eq_some.mpr hline] at hparse
          cases hparse
      | some item =>
          rw [List.filterMap_cons_some hparse]
          exact .item (parseActionItem_eq_some.mp hparse) ih

theorem Extracts.eq_filterMap {ls : List (List Char)} {items : List ActionItem}
    (h : Extracts ls items) : items = ls.filterMap parseActionItem := by
  induction h with
  | nil => rfl
  | item hline _ ih =>
      rw [List.filterMap_cons_some (parseActionItem_eq_some.mpr hline), ← ih]
  | @other line _ _ hline _ ih =>
      have hnone : parseActionItem line = none := by
        rw [Option.eq_none_iff_forall_ne_some]
        intro item hitem
        exact hline item (parseActionItem_eq_some.mp hitem)
      rw [List.filterMap_cons_none hnone, ← ih]

/-- The extracted items are the first twenty that the lines of the input
state, and a line states at most one. -/
theorem action_items_grammar (input : String) :
    (∃ ls items, Lines input.toList ls ∧ Extracts ls items ∧
      actionItems input = items.take 20) ∧
    (∀ ls items, Lines input.toList ls → Extracts ls items →
      actionItems input = items.take 20) ∧
    ∀ line item item', ActionLine line item → ActionLine line item' →
      item = item' := by
  refine ⟨?_, ?_, fun _ _ _ h h' => h.unique h'⟩
  · exact ⟨lines input.toList, _, Split.lines_iff.mpr rfl,
      extracts_filterMap _, rfl⟩
  · intro ls items hlines hitems
    rw [actionItems, Split.lines_iff.mp hlines, hitems.eq_filterMap]

/-- A text that ends like a separator begins. -/
def overlappingItem : ActionItem := ⟨"a |", "b", "c"⟩

/-- Its line is well formed, field by field, but no item is read from it. -/
theorem action_items_grammar_overlap : overlappingItem.Literal ∧
    (¬separator <:+: overlappingItem.text.toList ∧
      ¬separator <:+: overlappingItem.owner.toList ∧
        ¬separator <:+: overlappingItem.due.toList) ∧
    Lines overlappingItem.line [overlappingItem.line] ∧
      actionItems (String.ofList overlappingItem.line) = [] := by
  refine ⟨⟨?_, ?_, ?_⟩, by decide +kernel, ?_, by decide +kernel⟩
  · exact literalActionField_iff.mp (by decide +kernel)
  · exact literalActionField_iff.mp (by decide +kernel)
  · exact literalActionField_iff.mp (by decide +kernel)
  · exact Split.lines_iff.mpr (by decide +kernel)

end AgentGateway.Task
