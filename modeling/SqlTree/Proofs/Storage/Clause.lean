import SqlTree.Proofs.Storage.Record

/-!
# Stored clauses

Every clause is stored and read back with the expressions it holds.  There is one rule for each of
its fields, and `rfl` finds the key of the field in the record.
-/

namespace SqlTree

open Json Codec

section Names

variable {ε : Type} {c : Codec ε}

theorem Collate.stored (x : Collate) : c.Stored x.toJson Collate.ofJson? x [] :=
  .record (.bind (.field rfl (.string _)) <| .tagged rfl) rfl

theorem TimeUnit.stored (u : TimeUnit) : c.Stored u.toJson TimeUnit.ofJson? u [] :=
  .record (.bind (.field rfl (.string _)) <| .tagged rfl) rfl

theorem Identifier.stored (i : Identifier) : c.Stored i.toJson Identifier.ofJson? i [] :=
  .record
    (.bind (.field rfl (.string _)) <|
      .bind (.optionalPlain rfl .string) <|
      .bind (.optionalPlain rfl .string) <|
      .bind (.optionalPlain rfl Collate.stored) <|
      .tagged rfl)
    rfl

end Names

variable {ε : Type} (c : Codec ε)

theorem SelectItem.stored (s : SelectItem ε) :
    c.Stored (s.map c.write).toJson (ofJson? c.read) s s.held :=
  .record
    (.bind (.field rfl (.expr _)) <|
      .bind (.optionalPlain rfl Identifier.stored) <|
      .tagged rfl)
    rfl

theorem WithQuery.stored (w : WithQuery ε) :
    c.Stored (w.map c.write).toJson (ofJson? c.read) w w.held :=
  .record
    (.bind (.field rfl (Identifier.stored _)) <|
      .bind (.field rfl (.listPlain Identifier.stored _)) <|
      .bind (.field rfl (.expr _)) <|
      .tagged rfl)
    rfl

theorem Hint.stored (h : Hint ε) : c.Stored (h.map c.write).toJson (ofJson? c.read) h h.held :=
  .record (.bind (.field rfl (.expr _)) <| .tagged rfl) rfl

theorem Top.stored (t : Top ε) : c.Stored (t.map c.write).toJson (ofJson? c.read) t t.held :=
  .record
    (.bind (.field rfl (.expr _)) <|
      .bind (.field rfl (.bool _)) <|
      .bind (.field rfl (.bool _)) <|
      .tagged rfl)
    rfl

theorem OrderItem.stored (o : OrderItem ε) :
    c.Stored (o.map c.write).toJson (ofJson? c.read) o o.held :=
  .record
    (.bind (.field rfl (.expr _)) <|
      .bind (.optionalPlain rfl (.constant SortOrder.ofName?_name)) <|
      .bind (.optionalPlain rfl (.constant NullsOrder.ofName?_name)) <|
      .tagged rfl)
    rfl

theorem OrderBy.stored (o : OrderBy ε) :
    c.Stored (o.map c.write).toJson (ofJson? c.read) o o.held :=
  .record
    (.bind (.field rfl (.list (OrderItem.stored c) _)) <|
      .bind (.field rfl (.bool _)) <|
      .tagged rfl)
    (by simp [held])

theorem GroupBy.stored (g : GroupBy ε) :
    c.Stored (g.map c.write).toJson (ofJson? c.read) g g.held :=
  .record
    (.bind (.field rfl (.exprs _)) <|
      .bind (.optional rfl .expr) <|
      .tagged rfl)
    (by simp [held])

theorem ConnectBy.stored (x : ConnectBy ε) :
    c.Stored (x.map c.write).toJson (ofJson? c.read) x x.held :=
  .record
    (.bind (.optional rfl .expr) <|
      .bind (.field rfl (.expr _)) <|
      .bind (.field rfl (.bool _)) <|
      .bind (.field rfl (.bool _)) <|
      .tagged rfl)
    (by simp [held])

theorem Limit.stored (l : Limit ε) : c.Stored (l.map c.write).toJson (ofJson? c.read) l l.held :=
  .record
    (.bind (.optional rfl .expr) <|
      .bind (.optional rfl .expr) <|
      .tagged rfl)
    (by simp [held])

theorem PartitionBy.stored (p : PartitionBy ε) :
    c.Stored (p.map c.write).toJson (ofJson? c.read) p p.held :=
  .record (.bind (.field rfl (.exprs _)) <| .tagged rfl) (by simp [held])

theorem WithinGroup.stored (w : WithinGroup ε) :
    c.Stored (w.map c.write).toJson (ofJson? c.read) w w.held :=
  .record (.bind (.field rfl (OrderBy.stored c _)) <| .tagged rfl) (by simp [held])

theorem Window.stored (w : Window ε) :
    c.Stored (w.map c.write).toJson (ofJson? c.read) w w.held :=
  .record
    (.bind (.optional rfl (PartitionBy.stored c)) <|
      .bind (.optional rfl (OrderBy.stored c)) <|
      .tagged rfl)
    (by simp [held])

theorem CaseItem.stored (x : CaseItem ε) :
    c.Stored (x.map c.write).toJson (ofJson? c.read) x x.held :=
  .record
    (.bind (.field rfl (.expr _)) <|
      .bind (.field rfl (.expr _)) <|
      .tagged rfl)
    rfl

theorem Call.stored (x : Call ε) : c.Stored (x.map c.write).toJson (ofJson? c.read) x x.held :=
  .record
    (.bind (.field rfl (.listPlain Identifier.stored _)) <|
      .bind (.field rfl (Identifier.stored _)) <|
      .bind (.field rfl (.bool _)) <|
      .bind (.field rfl (.exprs _)) <|
      .bind (.optional rfl (WithinGroup.stored c)) <|
      .bind (.optional rfl (Window.stored c)) <|
      .tagged rfl)
    (by simp [held])

theorem SelectQuery.stored (q : SelectQuery ε) :
    c.Stored (q.map c.write).toJson (ofJson? c.read) q q.held :=
  .record
    (.bind (.field rfl (.list (WithQuery.stored c) _)) <|
      .bind (.field rfl (.list (Hint.stored c) _)) <|
      .bind (.optionalPlain rfl (.constant RowOption.ofName?_name)) <|
      .bind (.optional rfl (Top.stored c)) <|
      .bind (.field rfl (.list (SelectItem.stored c) _)) <|
      .bind (.optional rfl .expr) <|
      .bind (.optional rfl .expr) <|
      .bind (.optional rfl .expr) <|
      .bind (.optional rfl (GroupBy.stored c)) <|
      .bind (.optional rfl (ConnectBy.stored c)) <|
      .bind (.optional rfl (OrderBy.stored c)) <|
      .bind (.optional rfl (Limit.stored c)) <|
      .tagged rfl)
    (by simp [held])

theorem Table.stored (t : Table ε) : c.Stored (t.map c.write).toJson (ofJson? c.read) t t.held :=
  .record
    (.bind (.optionalPlain rfl Identifier.stored) <|
      .bind (.optionalPlain rfl Identifier.stored) <|
      .bind (.field rfl (Identifier.stored _)) <|
      .bind (.optionalPlain rfl Identifier.stored) <|
      .bind (.optionalPlain rfl Identifier.stored) <|
      .bind (.field rfl (.list (Hint.stored c) _)) <|
      .tagged rfl)
    (by simp [held])

theorem Insert.stored (i : Insert ε) :
    c.Stored (i.map c.write).toJson (ofJson? c.read) i i.held :=
  .record
    (.bind (.field rfl (.list (Hint.stored c) _)) <|
      .bind (.field rfl (.expr _)) <|
      .bind (.field rfl (.listPlain Identifier.stored _)) <|
      .bind (.field rfl (.list .exprs _)) <|
      .bind (.optional rfl .expr) <|
      .tagged rfl)
    (by simp [held])

theorem Update.stored (u : Update ε) :
    c.Stored (u.map c.write).toJson (ofJson? c.read) u u.held :=
  .record
    (.bind (.field rfl (.list (Hint.stored c) _)) <|
      .bind (.field rfl (.expr _)) <|
      .bind (.field rfl (.exprs _)) <|
      .bind (.optional rfl .expr) <|
      .bind (.optional rfl .expr) <|
      .tagged rfl)
    (by simp [held])

theorem Delete.stored (d : Delete ε) :
    c.Stored (d.map c.write).toJson (ofJson? c.read) d d.held :=
  .record
    (.bind (.field rfl (.list (Hint.stored c) _)) <|
      .bind (.field rfl (.expr _)) <|
      .bind (.optional rfl .expr) <|
      .bind (.optional rfl .expr) <|
      .tagged rfl)
    (by simp [held])

end SqlTree
