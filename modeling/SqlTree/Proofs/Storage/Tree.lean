import SqlTree.Proofs.Storage.Clause

/-!
# Stored trees

A tree that is written as JSON and read again is the same tree, with all its tags.  A node is read
back if the expressions in it are, and these are less high than its stored form, so that the
reading, which is bounded by the height of the value, does not end before it comes to them.
-/

namespace SqlTree

open Json Codec

namespace Node

variable {ε : Type} (c : Codec ε)

/-- The record of a node is read back under the key of the node. -/
theorem stored_record (n : Node ε) :
    c.Stored (n.map c.write).jsonRecord (ofJsonRecord? c.read n.jsonKey) n n.held := by
  cases n with
  | select query aliasName tag =>
      exact .record
        (.bind (.field rfl (.expr _)) <|
          .bind (.optionalPlain rfl Identifier.stored) <|
          .tagged rfl)
        rfl
  | selectQuery query => exact .map (query.stored c) selectQuery
  | union withQueries left right op tag =>
      exact .record
        (.bind (.field rfl (.list (WithQuery.stored c) _)) <|
          .bind (.field rfl (.expr _)) <|
          .bind (.field rfl (.expr _)) <|
          .bind (.field rfl (.constant SetOp.ofName?_name _)) <|
          .tagged rfl)
        (by simp [held])
  | table source => exact .map (source.stored c) table
  | joinTable left right kind condition isComma tag =>
      exact .record
        (.bind (.field rfl (.expr _)) <|
          .bind (.field rfl (.expr _)) <|
          .bind (.field rfl (.constant JoinKind.ofName?_name _)) <|
          .bind (.optional rfl .expr) <|
          .bind (.field rfl (.bool _)) <|
          .tagged rfl)
        (by simp [held])
  | tableFunction function aliasName tag =>
      exact .record
        (.bind (.field rfl (function.stored c)) <|
          .bind (.optionalPlain rfl Identifier.stored) <|
          .tagged rfl)
        (by simp [held])
  | pivotTable source aggregate column values aliasName tag =>
      exact .record
        (.bind (.field rfl (.expr _)) <|
          .bind (.field rfl (aggregate.stored c)) <|
          .bind (.field rfl (.expr _)) <|
          .bind (.field rfl (.list (SelectItem.stored c) _)) <|
          .bind (.optionalPlain rfl Identifier.stored) <|
          .tagged rfl)
        (by simp [held])
  | identifier name => exact .map name.stored identifier
  | property schema owner name collate tag =>
      exact .record
        (.bind (.optionalPlain rfl Identifier.stored) <|
          .bind (.field rfl owner.stored) <|
          .bind (.field rfl name.stored) <|
          .bind (.optionalPlain rfl Collate.stored) <|
          .tagged rfl)
        rfl
  | allColumns owner tag =>
      exact .record
        (.bind (.field rfl (.listPlain Identifier.stored _)) <| .tagged rfl) rfl
  | «variable» sigil name tag =>
      exact .record
        (.bind (.field rfl (.string _)) <|
          .bind (.field rfl (.string _)) <|
          .tagged rfl)
        rfl
  | number value tag =>
      exact .record (.bind (.field rfl (.string _)) <| .tagged rfl) rfl
  | string value isNational tag =>
      exact .record
        (.bind (.field rfl (.string _)) <|
          .bind (.field rfl (.bool _)) <|
          .tagged rfl)
        rfl
  | bool value tag =>
      exact .record (.bind (.field rfl (.bool _)) <| .tagged rfl) rfl
  | null tag => exact .record (.tagged rfl) rfl
  | interval value unit tag =>
      exact .record
        (.bind (.field rfl (.expr _)) <|
          .bind (.optionalPlain rfl TimeUnit.stored) <|
          .tagged rfl)
        rfl
  | array elements tag =>
      exact .record (.bind (.field rfl (.exprs _)) <| .tagged rfl) (by simp [held])
  | binary left op right tag =>
      exact .record
        (.bind (.field rfl (.expr _)) <|
          .bind (.field rfl (.constant BinaryOp.ofName?_name _)) <|
          .bind (.field rfl (.expr _)) <|
          .tagged rfl)
        rfl
  | between operand low high negated tag =>
      exact .record
        (.bind (.field rfl (.expr _)) <|
          .bind (.field rfl (.expr _)) <|
          .bind (.field rfl (.expr _)) <|
          .bind (.field rfl (.bool _)) <|
          .tagged rfl)
        rfl
  | membership operand targets query negated tag =>
      exact .record
        (.bind (.field rfl (.expr _)) <|
          .bind (.field rfl (.exprs _)) <|
          .bind (.optional rfl .expr) <|
          .bind (.field rfl (.bool _)) <|
          .tagged rfl)
        (by simp [held])
  | regex operand pattern ignoresCase negated tag =>
      exact .record
        (.bind (.field rfl (.expr _)) <|
          .bind (.field rfl (.expr _)) <|
          .bind (.field rfl (.bool _)) <|
          .bind (.field rfl (.bool _)) <|
          .tagged rfl)
        rfl
  | caseOf operand items otherwise tag =>
      exact .record
        (.bind (.optional rfl .expr) <|
          .bind (.field rfl (.list (CaseItem.stored c) _)) <|
          .bind (.optional rfl .expr) <|
          .tagged rfl)
        (by simp [held])
  | call function => exact .map (function.stored c) call
  | atTimeZone first second tag | arrayIndex first second tag =>
      exact .record
        (.bind (.field rfl (.expr _)) <|
          .bind (.field rfl (.expr _)) <|
          .tagged rfl)
        rfl
  | arraySlice base lower upper tag =>
      exact .record
        (.bind (.field rfl (.expr _)) <|
          .bind (.optional rfl .expr) <|
          .bind (.optional rfl .expr) <|
          .tagged rfl)
        (by simp [held])
  | insert statement => exact .map (statement.stored c) insert
  | update statement => exact .map (statement.stored c) update
  | delete statement => exact .map (statement.stored c) delete
  | not operand tag | negate operand tag | existence operand tag | any operand tag
  | all operand tag =>
      exact .record (.bind (.field rfl (.expr _)) <| .tagged rfl) rfl

/-- A node is read back if the expressions in it are. -/
theorem ofJson?_toJson {n : Node ε} (hkeeps : AllOf c.Keeps n.held) :
    ofJson? c.read (n.map c.write).toJson = some n := by
  have hkey : (n.map c.write).jsonKey = n.jsonKey := by cases n <;> rfl
  rw [toJson, hkey]
  exact (n.stored_record c).read_eq hkeeps

/-- What is stored of an expression in a node is less high than what is stored of the node. -/
theorem height_lt {n : Node ε} {e : ε} (he : e ∈ n.held) :
    (c.write e).height < (n.map c.write).toJson.height := by
  have hle := (n.stored_record c).height_le e he
  rw [toJson, height, heightOfFields, heightOfFields]
  omega

end Node

namespace Expr

/-- Writing trees, and reading those of at most the given number of levels. -/
def codec (levels : Nat) : Codec Expr where
  write := toJson
  read := ofJsonWithin? levels
  write_ne_null e := by
    obtain ⟨n⟩ := e
    rw [toJson, fold_node]
    exact nofun

theorem toJson_node (n : Node Expr) : (node n).toJson = (n.map toJson).toJson :=
  fold_node _ n

/-- A tree is read back by any reader that goes deeper than its stored form is high. -/
theorem codec_keeps (e : Expr) {levels : Nat} (hlevels : e.toJson.height < levels) :
    (codec levels).Keeps e := by
  -- On the way down each node takes one level of the reader and at least one of the height.
  induction e using Expr.induction generalizing levels with
  | step n ih =>
      rw [toJson_node] at hlevels
      cases levels with
      | zero => cases hlevels
      | succ levels =>
          have hheld : AllOf (codec levels).Keeps n.held := fun e he => by
            have hlt := Node.height_lt (codec levels) he
            exact ih e he (Nat.lt_of_lt_of_le hlt (Nat.le_of_lt_succ hlevels))
          have hnode := Node.ofJson?_toJson (codec levels) hheld
          change ofJsonWithin? (levels + 1) (node n).toJson = _
          rw [toJson_node, ofJsonWithin?]
          exact congrArg (Option.map node) hnode

theorem ofJson?_toJson (e : Expr) : ofJson? e.toJson = some e :=
  codec_keeps e (Nat.lt_succ_self _)

/-- Every tree is read back from what is written of it, with all its tags, and whatever a value is
read as, it is read as that again when it has been written. -/
theorem stored_roundTrip :
    (∀ e : Expr, ofJson? e.toJson = some e) ∧
      ∀ value : Json, ((ofJson? value).map toJson).bind ofJson? = ofJson? value := by
  refine ⟨ofJson?_toJson, fun value => ?_⟩
  cases ofJson? value with
  | none => rfl
  | some e => exact ofJson?_toJson e

end Expr

end SqlTree
