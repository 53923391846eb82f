import SqlTree.Grammar.Statement
import SqlTree.Proofs.Payload.Expression

/-!
# Sources and row limits keep their payload

Sources of rows keep the payload that they pass, as expressions do.  The parts of the name of a
linked database are first kept one by one; they share one field in the end.
-/

namespace SqlTree

open SqlTree.Parser

/-- Texts that keep some tokens keep them as well when they are joined with dots. -/
theorem Kept.link {parts : List String} {tokens : Multiset Token}
    (h : Kept (each (fun part => {.text part}) parts) tokens) :
    Kept {.link (".".intercalate parts)} tokens := by
  refine single_iff.2 ⟨parts, rfl, ?_⟩
  induction parts generalizing tokens with
  | nil =>
      obtain ⟨shares, rfl, hshares⟩ := h
      obtain rfl := Multiset.rel_zero_left.1 hshares
      exact le_rfl
  | cons part parts ih =>
      rw [each_cons] at h
      obtain ⟨share, rest, rfl, hshare, hrest⟩ := h.split
      obtain rfl | ⟨token, rfl, rfl⟩ := single_iff.1 hshare
      · rw [zero_add]
        exact (ih hrest).trans (Multiset.le_cons_self _ _)
      · rw [Multiset.map_add, Multiset.map_singleton, Multiset.singleton_add]
        exact Multiset.cons_le_cons _ (ih hrest)

namespace Cursor.Account

variable {base c : Cursor} {parts : List String}

/-- The parts of a name may share one field. -/
theorem link (h : base.Account (each (fun part => {.text part}) parts) c) :
    base.Account {.link (".".intercalate parts)} c := by
  obtain ⟨hrepeats, tokens, hpasses, hkept⟩ := h
  exact ⟨hrepeats, tokens, hpasses, hkept.link⟩

end Cursor.Account

def RowRange.fields (range : RowRange) : Multiset Field :=
  ifAny Expr.fields range.offset + ifAny Expr.fields range.rowCount

namespace Level.KeepsBelow

variable {g : Level} {R : Multiset Field} {left e : Expr} (h : g.KeepsBelow)

include h

/-! ## Row limits -/

omit h in
theorem rowsWord : Skips Level.rowsWord := by
  refine .branch skips_acceptKeyword (.pure rfl) ?_
  exact .branch skips_acceptWord (.pure rfl) .refuseFor

theorem limitOffset : Keeps RowRange.fields g.limitOffset := by
  refine .branch skips_acceptKeyword ?_ (.pure rfl)
  refine .bind h.additive fun first => ?_
  refine .branch (skips_accept rfl) ?_ ?_
  · exact .after h.additive fun rowCount => .pure rfl
  · refine .branch skips_acceptWord ?_ (.pure (by simp [RowRange.fields]))
    exact .after h.additive fun offset => .pure (add_comm ..)

omit h in
theorem acceptEither {word : Keyword} {other : String} : Skips (acceptEither word other) :=
  .branch skips_acceptKeyword (.pure rfl) skips_acceptWord

theorem fetch {ordinal : Keyword} {other : String} {wanted : Wanted} :
    Keeps (ifAny Expr.fields) (g.fetch ordinal other wanted) := by
  refine .branch skips_acceptKeyword ?_ (.pure rfl)
  refine .branch acceptEither ?_ .refuseFor
  refine .bind h.additive fun rowCount => ?_
  refine .skip rowsWord fun _ => ?_
  exact .skip skips_expectKeyword fun _ => .pure rfl

theorem offsetFetch : Keeps RowRange.fields g.offsetFetch := by
  refine .branch skips_acceptKeyword ?_ (.pure rfl)
  refine .bind h.additive fun offset => ?_
  refine .skip rowsWord fun _ => ?_
  exact .after h.fetch fun rowCount => .pure rfl

theorem offsetRows : Keeps (ifAny Expr.fields) g.offsetRows := by
  refine .branch skips_acceptWord ?_ (.pure rfl)
  refine .bind h.additive fun offset => ?_
  exact .skip rowsWord fun _ => .pure rfl

theorem fetchFirst : Keeps RowRange.fields g.fetchFirst := by
  refine .bind h.offsetRows fun _ => ?_
  exact .after h.fetch fun _ => .pure rfl

omit h in
theorem rowsWordIfAny : Skips Level.rowsWordIfAny := by
  refine .branch skips_acceptWord (.pure rfl) ?_
  exact .skip skips_acceptWord fun _ => .pure rfl

omit h in
/-- A keyword is accepted only where what follows it has not been read yet. -/
theorem acceptUnlessRead {β : Type} {read : Option Expr} {word : Keyword} {f f' : Parser β}
    {G : β → Multiset Field} (hf : read = none → Grows R f G) (hf' : Grows R f' G) :
    Grows R (Level.acceptUnlessRead read word >>= fun b => if b = true then f else f') G := by
  cases read with
  | none => exact .branch skips_acceptKeyword (hf rfl) hf'
  | some e => exact hf'

theorem limitOrOffset (range : RowRange) :
    Grows range.fields (g.limitOrOffset range) fun t => t.value.fields := by
  obtain ⟨offset, rowCount⟩ := range
  refine acceptUnlessRead (fun hrowCount => ?_) (acceptUnlessRead (fun hoffset => ?_) (.pure rfl))
  · obtain rfl : rowCount = none := hrowCount
    refine .branch skips_acceptKeyword (.pure rfl) ?_
    refine .after h.additive fun rowCount => ?_
    refine .pure ?_
    simp [RowRange.fields, Turn.value]
  · obtain rfl : offset = none := hoffset
    refine .after h.additive fun offset => ?_
    refine .skip rowsWordIfAny fun _ => ?_
    refine .pure ?_
    simp [RowRange.fields, Turn.value, add_comm]

theorem rowRange (style : Option LimitStyle) : Keeps RowRange.fields (g.rowRange style) := by
  match style with
  | some .limitOffset => exact h.limitOffset
  | some .offsetFetch => exact h.offsetFetch
  | some .fetchFirst => exact h.fetchFirst
  | some .limitAndOffset => exact .loop rfl h.limitOrOffset
  | none => exact .pure rfl

theorem limit : Keeps (ifAny (Limit.fields Expr.fields)) g.limit := by
  refine .bind (h.rowRange _) fun range => ?_
  split <;> exact .pure rfl

/-! ## Tables -/

theorem selectItem : Keeps (SelectItem.fields Expr.fields) g.selectItem := by
  refine .bind h.expression fun _ => ?_
  exact .after keeps_aliasName fun _ => .pure rfl

omit h in
/-- A table that is nothing but its name has the fields of that name. -/
theorem tableOf {β : Type} {path : NamePath} {f : Table Expr → Parser β} {G : β → Multiset Field}
    (hf : ∀ table : Table Expr, table.link = none → table.aliasName = none → table.hints = [] →
      Grows (table.fields Expr.fields) (f table) G) :
    Grows path.fields (g.tableOf path >>= f) G := by
  obtain ⟨last, before⟩ := path
  unfold Level.tableOf
  split
  · rw [pure_bind]
    exact .ofEq (hf _ rfl rfl rfl) (by simp_all [Table.fields, NamePath.fields_mk])
  · rw [pure_bind]
    exact .ofEq (hf _ rfl rfl rfl) (by simp_all [Table.fields, NamePath.fields_mk])
  · rw [pure_bind]
    exact .ofEq (hf _ rfl rfl rfl) (by simp_all [Table.fields, NamePath.fields_mk, add_comm])
  · intro base c b d _ hb
    obtain ⟨table, c', hrefuse, -⟩ := bind_eq_ok.1 hb
    cases hrefuse

omit h in
theorem tablePath : Keeps NamePath.fields g.tablePath :=
  .test keeps_namePath .refuseFor

omit h in
theorem tableName : Keeps Expr.fields g.tableName := by
  refine .bind tablePath fun path => ?_
  refine tableOf fun table _ _ _ => ?_
  refine .pure ?_
  simp [Node.fields]

/-- While the name of a linked database is read, its parts are kept one by one. -/
def ReadingLink (base : Cursor) (link : Identifier) (c : Cursor) : Prop :=
  ∃ parts : List String, parts ≠ [] ∧ link.value = ".".intercalate parts ∧ link.collate = none ∧
    base.Account (each (fun part => {.text part}) parts) c

omit h in
/-- One more part is kept after a dot. -/
theorem linkPart (base : Cursor) (link : Identifier) :
    Leads (ReadingLink base link) g.namePart fun next c =>
      ReadingLink base { link with value := link.value ++ "." ++ next.value } c := by
  intro c next d hc hnext
  obtain ⟨parts, hne, hvalue, hcollate, haccount⟩ := hc
  have hplain := GivesPlain.namePart c next d trivial hnext
  have hmore := Adds.frame keeps_namePart base c next d ⟨haccount, trivial⟩ hnext
  refine ⟨parts ++ [next.value], by simp, ?_, hcollate, ?_⟩
  · rw [String.intercalate_append_of_ne_nil hne (List.cons_ne_nil _ _),
      String.intercalate_singleton, hvalue]
  · simpa [Identifier.fields, hplain] using hmore

omit h in
theorem link : Keeps (ifAny Identifier.linkFields) g.link := by
  unfold Level.link
  split
  case isFalse => exact .pure rfl
  case isTrue =>
      refine .branch (skips_accept rfl) ?_ (.pure rfl)
      refine .bindGives keeps_namePart GivesPlain.namePart fun first hfirst => ?_
      refine .map (F := Identifier.linkFields) (fun base => ?_) fun _ => rfl
      refine (Leads.loop (I := ReadingLink base) (fun link => ?_) first).mono ?_ ?_
      · have hdot : Leads (ReadingLink base link) (accept .dot) fun _ => ReadingLink base link := by
          intro c taken d ⟨parts, hne, hvalue, hcollate, haccount⟩ hdot
          have hsame := Adds.frame (skips_accept rfl) base c taken d ⟨haccount, trivial⟩ hdot
          rw [add_zero] at hsame
          exact ⟨parts, hne, hvalue, hcollate, hsame⟩
        refine hdot.bind fun more => ?_
        cases more with
        | true =>
            refine (linkPart base link).bind fun _ => ?_
            exact .pure fun _ => id
        | false => exact .pure fun _ => id
      · intro c hc
        refine ⟨[first.value], List.cons_ne_nil _ _, String.intercalate_singleton.symm, hfirst, ?_⟩
        simpa [Identifier.fields, hfirst] using hc.1
      · rintro link c ⟨parts, -, hvalue, hcollate, haccount⟩
        simpa [Identifier.linkFields, hvalue, hcollate] using haccount.link

omit h in
theorem startsHints_plain {c : Cursor} {first second : Token} {tokens : List Token}
    (hstarts : g.startsHints c = true) (hahead : c.ahead = first :: second :: tokens) :
    first.type.isPayload = false ∧ second.type.isPayload = false := by
  simp only [Level.startsHints, Cursor.nextType, Cursor.secondType, hahead, List.head?_cons,
    List.tail_cons, Option.map_some, Bool.and_eq_true, beq_iff_eq, Option.some.injEq] at hstarts
  rw [hstarts.1.2, hstarts.2]
  exact ⟨rfl, rfl⟩

theorem tableHints : Keeps (each (Hint.fields Expr.fields)) g.tableHints := by
  refine .testThen (.takeTwo (fun _ _ _ _ hc => startsHints_plain hc.2) ?_) (.pure rfl)
  refine .bind (keeps_commaList h.unit) fun bodies => ?_
  refine .skip (skips_expect rfl) fun _ => ?_
  refine .pure ?_
  rw [each_map]
  rfl

theorem namedSource : Keeps Expr.fields g.namedSource := by
  refine .bind tablePath fun path => ?_
  refine .test ?_ (tableOf fun table hlink halias hhints => ?_)
  · refine .bind (.ofEq (h.call 0 path) (zero_add _)) fun function => ?_
    exact .after keeps_aliasName fun _ => .pure (by simp [Node.fields])
  · refine .after link fun link => ?_
    refine .after keeps_aliasName fun _ => ?_
    refine .after h.tableHints fun _ => ?_
    refine .pure ?_
    simp [Node.fields, Table.fields, hlink, halias, hhints]

theorem pivot {source : Expr} : Grows source.fields (g.pivot source) Expr.fields := by
  refine .skip skips_expectKeyword fun _ => ?_
  refine .skip (skips_expect rfl) fun _ => ?_
  refine .after keeps_namePart fun name => ?_
  refine .bind (.ofEq (h.call source.fields ⟨name, []⟩) ?_) fun aggregate => ?_
  · simp [NamePath.fields_mk]
  refine .branch skips_acceptWord ?_ .refuseFor
  refine .after h.additive fun column => ?_
  refine .skip skips_expectKeyword fun _ => ?_
  refine .skip (skips_expect rfl) fun _ => ?_
  refine .after (keeps_commaList h.selectItem) fun values => ?_
  refine .skip (skips_expect rfl) fun _ => ?_
  refine .skip (skips_expect rfl) fun _ => ?_
  refine .after keeps_aliasName fun _ => ?_
  refine .pure ?_
  simp [Node.fields]

omit h in
/-- The words before a join are no payload. -/
theorem joinKind : Skips Level.joinKind := by
  refine .peekType fun next => ?_
  cases next with
  | none => exact .pure rfl
  | some type =>
      cases type with
      | keyword word =>
          cases word with
          | INNER => exact .takeNext rfl fun _ => .pure rfl
          | LEFT | RIGHT | FULL =>
              refine .takeNext rfl fun _ => ?_
              exact .skip skips_acceptKeyword fun _ => .pure rfl
          | _ => exact .pure rfl
      | _ => exact .pure rfl

theorem join : Grows left.fields (g.join left) fun joined => (joined.getD left).fields := by
  refine .branch (skips_accept rfl) ?_ ?_
  · refine .after (h.keeps .source) fun right => ?_
    exact .pure (by simp [Node.fields])
  refine .branch skips_acceptKeyword ?_ ?_
  · refine .skip skips_expectKeyword fun _ => ?_
    refine .after (h.keeps .source) fun right => ?_
    exact .pure (by simp [Node.fields])
  · refine .skip joinKind fun kind => ?_
    cases kind with
    | none => exact .pure rfl
    | some kind =>
        refine .skip skips_expectKeyword fun _ => ?_
        refine .after (h.keeps .source) fun right => ?_
        refine .skip skips_expectKeyword fun _ => ?_
        refine .after h.expression fun condition => ?_
        refine .pure ?_
        simp [Node.fields]

theorem joinsFrom (n : Nat) (left : Expr) : Grows left.fields (g.joinsFrom n left) Expr.fields := by
  induction n generalizing left with
  | zero => exact .throw
  | succ n ih =>
      refine .bind h.join fun joined => ?_
      cases joined with
      | none => exact .pure rfl
      | some joined => exact ih joined

theorem sources : Keeps Expr.fields g.sources :=
  .bind (h.keeps .source) fun left => h.joinsFrom _ left

theorem plainSource : Keeps Expr.fields g.plainSource := by
  refine .isNextThen ?_ h.namedSource
  refine .testThen ?_ ?_
  · refine .mono ?_ fun _ => And.left
    refine .takeNext rfl fun _ => ?_
    refine .bind (h.keeps .query) fun query => ?_
    refine .skip (skips_expect rfl) fun _ => ?_
    refine .after keeps_aliasName fun _ => ?_
    exact .pure (by simp [Node.fields])
  · refine .mono ?_ fun _ => And.left
    refine .takeNext rfl fun _ => ?_
    refine .bind h.sources fun inner => ?_
    exact .skip (skips_expect rfl) fun _ => .pure rfl

theorem source : Keeps Expr.fields g.source := by
  refine .bind h.plainSource fun _ => ?_
  refine .loop rfl fun source => ?_
  exact .test h.pivot.again (.pure rfl)

end Level.KeepsBelow

end SqlTree
