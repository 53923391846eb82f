import SqlTree.Token.Keyword
import SqlTree.Tree.Distinct
import SqlTree.Tree.Render

/-!
# The characters that a tree is written with

The trees whose text is read back as the same tree, and the characters of that text, laid out as
they are read: each part of a node is followed by the characters that end it.
-/

namespace SqlTree

/-! ## Words and numbers -/

namespace Text

/-- Letters, digits and three signs, all of ASCII, the first one a letter or an underscore. -/
def isPlainWord : List Char → Bool
  | [] => false
  | c :: cs => (c.isAlpha || c == '_') &&
    cs.all fun d => d.isAlphanum || d == '_' || d == '$' || d == '#'

/-- Digits with one point at most, the first one a digit. -/
def isUnsigned : List Char → Bool
  | [] => false
  | c :: cs => c.isDigit && (cs.all fun d => d.isDigit || d == '.') && cs.count '.' ≤ 1

/-- A number with or without a sign. -/
def isNumeral : List Char → Bool
  | '-' :: cs => isUnsigned cs
  | cs => isUnsigned cs

end Text

/-- A word that is a name wherever it stands. -/
structure PlainWord (word : String) : Prop where
  plain : Text.isPlainWord word.toList = true
  free : Dialect.postgreSql.keyword? word = none

/-- A name that is a plain word and nothing else. -/
structure Identifier.Plain (name : Identifier) : Prop where
  word : PlainWord name.value
  left : name.left = none
  right : name.right = none
  collate : name.collate = none

/-! ## Trees -/

namespace Expr

/-- The trees whose text is read back as the tree.  The flag says whether the root may be a `NOT`,
which is written without parentheses. -/
inductive Rereadable : Bool → Expr → Prop where
  | identifier {negatable : Bool} {name : Identifier} (hname : name.Plain) :
      Rereadable negatable (.node (.identifier name))
  | property {negatable : Bool} {schema : Option Identifier} {owner name : Identifier} {tag : Tag}
      (hschema : ∀ s ∈ schema, s.Plain) (howner : owner.Plain) (hname : name.Plain) :
      Rereadable negatable (.node (.property schema owner name none tag))
  | variable {negatable : Bool} {sigil name : String} {tag : Tag}
      (hsigil : sigil ∈ ["@", "@@", ":"]) (hname : PlainWord name) :
      Rereadable negatable (.node (.variable sigil name tag))
  | number {negatable : Bool} {value : String} {tag : Tag}
      (hvalue : Text.isNumeral value.toList = true) :
      Rereadable negatable (.node (.number value tag))
  | string {negatable : Bool} {value : String} {tag : Tag} (hvalue : '\r' ∉ value.toList) :
      Rereadable negatable (.node (.string value false tag))
  | bool {negatable value : Bool} {tag : Tag} : Rereadable negatable (.node (.bool value tag))
  | null {negatable : Bool} {tag : Tag} : Rereadable negatable (.node (.null tag))
  /-- `AND`, `OR` and `XOR` bind less tightly than a `NOT`. -/
  | logical {negatable : Bool} {left right : Expr} {op : BinaryOp} {tag : Tag}
      (hop : op.isLogical = true) (hleft : Rereadable true left) (hright : Rereadable true right) :
      Rereadable negatable (.node (.binary left op right tag))
  /-- `IS` and `IS NOT` are followed by a truth value or null. -/
  | truth {negatable : Bool} {left right : Expr} {op : BinaryOp} {tag : Tag}
      (hop : op = .is ∨ op = .isNot) (hleft : Rereadable false left)
      (hright : right.kind = .null ∨ right.kind = .bool) :
      Rereadable negatable (.node (.binary left op right tag))
  | binary {negatable : Bool} {left right : Expr} {op : BinaryOp} {tag : Tag}
      (hop : op.isLogical = false) (his : op ≠ .is) (hisNot : op ≠ .isNot)
      (hleft : Rereadable false left) (hright : Rereadable false right) :
      Rereadable negatable (.node (.binary left op right tag))
  | not {operand : Expr} {tag : Tag} (hoperand : Rereadable true operand) :
      Rereadable true (.node (.not operand tag))
  | negate {negatable : Bool} {operand : Expr} {tag : Tag} (hoperand : Rereadable true operand) :
      Rereadable negatable (.node (.negate operand tag))
  | between {negatable negated : Bool} {operand low high : Expr} {tag : Tag}
      (hoperand : Rereadable false operand) (hlow : Rereadable false low)
      (hhigh : Rereadable false high) :
      Rereadable negatable (.node (.between operand low high negated tag))
  | membership {negatable negated : Bool} {operand : Expr} {targets : List Expr} {tag : Tag}
      (hoperand : Rereadable false operand) (hne : targets ≠ [])
      (htargets : ∀ e ∈ targets, Rereadable false e) :
      Rereadable negatable (.node (.membership operand targets none negated tag))
  | regex {negatable ignoresCase negated : Bool} {operand pattern : Expr} {tag : Tag}
      (hoperand : Rereadable false operand) (hpattern : Rereadable false pattern) :
      Rereadable negatable (.node (.regex operand pattern ignoresCase negated tag))
  | caseOf {negatable : Bool} {operand otherwise : Option Expr} {items : List (CaseItem Expr)}
      {tag : Tag} (hoperand : ∀ e ∈ operand, Rereadable true e) (hne : items ≠ [])
      (hconditions : ∀ item ∈ items, Rereadable true item.condition)
      (hresults : ∀ item ∈ items, Rereadable true item.result)
      (hotherwise : ∀ e ∈ otherwise, Rereadable true e) :
      Rereadable negatable (.node (.caseOf operand items otherwise tag))
  | call {negatable distinct : Bool} {name : Identifier} {arguments : List Expr} {tag : Tag}
      (hname : name.Plain) (harguments : ∀ e ∈ arguments, Rereadable true e) :
      Rereadable negatable (.node (.call ⟨[], name, distinct, arguments, none, none, tag⟩))
  | array {negatable : Bool} {elements : List Expr} {tag : Tag}
      (helements : ∀ e ∈ elements, Rereadable true e) :
      Rereadable negatable (.node (.array elements tag))

/-! ## Characters -/

def written (e : Expr) : List Char :=
  e.render.toList

def writtenList : List Expr → List Char
  | [] => []
  | e :: es => e.written ++ es.flatMap fun e => ',' :: ' ' :: e.written

/-- The characters of what a case compares, with a blank before it. -/
def writtenSubject (operand : Option Expr) : List Char :=
  operand.elim [] fun e => ' ' :: e.written

/-- The characters of what a case falls back on, with a blank before its word. -/
def writtenOtherwise (otherwise : Option Expr) : List Char :=
  otherwise.elim [] fun e => ' ' :: ("ELSE".toList ++ ' ' :: e.written)

end Expr

/-- The characters of a word that is left out unless a condition holds, with a blank behind it. -/
def writtenIf (condition : Bool) (word : String) : List Char :=
  if condition then word.toList ++ [' '] else []

def CaseItem.written (item : CaseItem Expr) : List Char :=
  ' ' :: ("WHEN".toList ++ ' ' :: (item.condition.written ++ ' ' ::
    ("THEN".toList ++ ' ' :: item.result.written)))

open Rendering Render

theorem toList_when (condition : Bool) (word : String) :
    (when condition (word ++ " ")).toList = writtenIf condition word := by
  cases condition
  · rfl
  · exact String.toList_append

/-- Texts with a separator between them are the first one and the others behind a separator. -/
theorem intercalate_cons (separator first : List Char) (further : List (List Char)) :
    separator.intercalate (first :: further) =
      first ++ further.flatMap fun text => separator ++ text := by
  induction further generalizing first with
  | nil => rw [List.intercalate_singleton, List.flatMap_nil, List.append_nil]
  | cons second further ih =>
      rw [List.intercalate_cons_cons, ih second, List.flatMap_cons, List.append_assoc,
        List.append_assoc]

theorem toList_exprs (items : List Expr) :
    (exprs (items.map Expr.rendering)).toList = Expr.writtenList items := by
  rw [exprs, list, commas, String.toList_intercalate]
  cases items with
  | nil => rfl
  | cons e es =>
      rw [List.map_cons, List.map_cons, List.map_cons, intercalate_cons, Expr.writtenList,
        List.flatMap_map, List.flatMap_map, List.flatMap_map]
      rfl

theorem Identifier.Plain.render_eq {name : Identifier} (hname : name.Plain) :
    name.render = name.value := by
  rw [Identifier.render, hname.collate]
  exact String.append_empty

attribute [simp] nodeText

namespace Expr

/-- The text of a node is made of the texts of its children. -/
theorem written_node (n : Node Expr) :
    (Expr.node n).written = (nodeText (n.map rendering)).toList := by
  rw [written, render, rendering, fold_node]
  rfl

variable (tag : Tag)

theorem written_identifier {name : Identifier} (hname : name.Plain) :
    (Expr.node (.identifier name)).written = name.value.toList := by
  rw [written_node]
  exact congrArg String.toList hname.render_eq

theorem written_property {schema : Option Identifier} {owner name : Identifier}
    (hschema : ∀ s ∈ schema, s.Plain) (howner : owner.Plain) (hname : name.Plain) :
    (Expr.node (.property schema owner name none tag)).written =
      (schema.elim [] fun s => s.value.toList ++ ['.']) ++
        (owner.value.toList ++ '.' :: name.value.toList) := by
  rw [written_node]
  cases schema with
  | none =>
      simp [Node.map, Identifier.renderQualifier, howner.render_eq, hname.render_eq,
        Collate.renderAfter, clause]
  | some s =>
      simp [Node.map, Identifier.renderQualifier, (hschema s rfl).render_eq,
        howner.render_eq, hname.render_eq, Collate.renderAfter, clause]

theorem written_variable (sigil name : String) :
    (Expr.node (.variable sigil name tag)).written = sigil.toList ++ name.toList := by
  rw [written_node]
  exact String.toList_append

theorem written_number (value : String) :
    (Expr.node (.number value tag)).written = value.toList := by
  rw [written_node]
  rfl

theorem written_string (value : String) :
    (Expr.node (.string value false tag)).written = Text.Quoted.write value.toList := by
  rw [written_node]
  simp [Node.map, stringText, quoted, when]

theorem written_bool (value : Bool) :
    (Expr.node (.bool value tag)).written = (if value then "TRUE" else "FALSE").toList := by
  rw [written_node]
  rfl

theorem written_null : (Expr.node (.null tag)).written = "NULL".toList := by
  rw [written_node]
  rfl

theorem written_binary (left right : Expr) (op : BinaryOp) :
    (Expr.node (.binary left op right tag)).written =
      '(' :: (left.written ++ ' ' :: (op.text.toList ++ ' ' :: (right.written ++ [')']))) := by
  rw [written_node]
  simp [Node.map, written, render]

theorem written_not (operand : Expr) :
    (Expr.node (.not operand tag)).written = "NOT".toList ++ ' ' :: operand.written := by
  rw [written_node]
  simp [Node.map, written, render]

theorem written_negate (operand : Expr) :
    (Expr.node (.negate operand tag)).written = '-' :: '(' :: (operand.written ++ [')']) := by
  rw [written_node]
  simp [Node.map, written, render]

theorem written_between (operand low high : Expr) (negated : Bool) :
    (Expr.node (.between operand low high negated tag)).written =
      '(' :: (operand.written ++ ' ' :: (writtenIf negated "NOT" ++ ("BETWEEN".toList ++ ' ' ::
        (low.written ++ ' ' :: ("AND".toList ++ ' ' :: (high.written ++ [')'])))))) := by
  rw [written_node]
  have hword := toList_when negated "NOT"
  simp [Node.map, written, render, ← hword]

theorem written_membership (operand : Expr) (targets : List Expr) (negated : Bool) :
    (Expr.node (.membership operand targets none negated tag)).written =
      '(' :: (operand.written ++ ' ' :: (writtenIf negated "NOT" ++ ("IN".toList ++ ' ' ::
        '(' :: (writtenList targets ++ [')', ')'])))) := by
  rw [written_node]
  have hword := toList_when negated "NOT"
  simp [Node.map, written, render, ← hword, toList_exprs]

theorem written_regex (operand pattern : Expr) (ignoresCase negated : Bool) :
    (Expr.node (.regex operand pattern ignoresCase negated tag)).written =
      '(' :: (operand.written ++ ' ' :: ((regexSign negated ignoresCase).toList ++ ' ' ::
        (pattern.written ++ [')']))) := by
  rw [written_node]
  simp [Node.map, written, render]

theorem written_caseOf (operand otherwise : Option Expr) (items : List (CaseItem Expr)) :
    (Expr.node (.caseOf operand items otherwise tag)).written =
      "CASE".toList ++ (writtenSubject operand ++ (items.flatMap CaseItem.written ++
        (writtenOtherwise otherwise ++ ' ' :: "END".toList))) := by
  have hbranch : ∀ item : CaseItem Expr,
      (" " ++ (item.map rendering).render).toList = item.written := by
    intro item
    simp [CaseItem.render, CaseItem.map, CaseItem.written, written, render]
  have hbranches : (String.join ((items.map (CaseItem.map rendering)).map fun item =>
      " " ++ item.render)).toList = items.flatMap CaseItem.written := by
    rw [String.toList_join, List.flatMap_map, List.flatMap_map]
    exact congrArg (items.flatMap ·) (funext hbranch)
  rw [written_node]
  simp only [Node.map, nodeText, String.toList_append, hbranches, List.append_assoc]
  congr 1
  cases operand <;> cases otherwise <;>
    simp [clause, writtenSubject, writtenOtherwise, written, render]

theorem written_call {name : Identifier} (hname : name.Plain) (distinct : Bool)
    (arguments : List Expr) :
    (Expr.node (.call ⟨[], name, distinct, arguments, none, none, tag⟩)).written =
      name.value.toList ++ '(' ::
        (writtenIf distinct "DISTINCT" ++ (writtenList arguments ++ [')'])) := by
  have hword := toList_when distinct "DISTINCT"
  rw [written_node]
  simp [Node.map, Call.map, Call.render, Identifier.renderOwner, hname.render_eq, clause,
    ← hword, toList_exprs]

theorem written_array (elements : List Expr) :
    (Expr.node (.array elements tag)).written =
      "ARRAY".toList ++ '[' :: (writtenList elements ++ [']']) := by
  rw [written_node]
  simp [Node.map, toList_exprs]

end Expr

end SqlTree
