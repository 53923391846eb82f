import SqlTree.Proofs.Omission.Unit
import SqlTree.Proofs.RowLimit.Clauses

/-!
# Row limits and sources without `AS`

Behind the items of a list and behind a row limit the first reading may be stuck at `AS`, at `AT`
before `AS` or at `TIME`; none of them starts a clause.
-/

namespace SqlTree

open SqlTree.Parser SqlTree.Omission

namespace Level.Omits

open SqlTree.Omission.Follows

variable {o : Omission} {φ S : Cursor → Prop} {c d : Cursor} {g : Level}

/-! ## Row limits -/

theorem rowsWord : o.Follows φ o.Foreign Never Level.rowsWord := by
  refine acceptThen rfl .pure ?_
  exact acceptWordThen (by decide) .pure refuseFor

/-- Takes a keyword or else a plain word if one of them stands here. -/
theorem acceptEitherThen {β : Type} {T : Cursor → Prop} {word : Keyword} {other : String}
    (hword : (TokenType.keyword word).isSteady = true) (hother : Text.upper other ∉ stuckWords)
    {f k : Parser β} (hf : o.Follows (fun _ => True) Never T f) (hk : o.Follows φ o.Foreign T k) :
    o.Follows φ o.Foreign T
      (Level.acceptEither word other >>= fun b => if b = true then f else k) := by
  have heither : (Level.acceptEither word other >>= fun b => if b = true then f else k) =
      Parser.accept (.keyword word) >>= fun b => if b = true then f else
        (Parser.acceptWord other >>= fun b => if b = true then f else k) := by
    unfold Level.acceptEither acceptKeyword
    rw [bind_assoc]
    refine congrArg _ (funext fun b => ?_)
    cases b with
    | true => exact pure_bind true _
    | false => rfl
  rw [heither]
  refine acceptThen hword hf ?_
  exact acceptWordThen hother hf hk

theorem rowsWordIfAny : o.Follows φ o.Foreign o.Foreign Level.rowsWordIfAny :=
  acceptWordThen (by decide) .pure ((Follows.acceptWord (by decide)).returns)

/-- Takes a keyword if it stands here and what follows it has not been read yet. -/
theorem acceptUnlessReadThen {β : Type} {T : Cursor → Prop} {read : Option Expr} {word : Keyword}
    (hword : (TokenType.keyword word).isSteady = true) {f k : Parser β}
    (hf : o.Follows (fun _ => True) Never T f) (hk : o.Follows φ o.Foreign T k) :
    o.Follows φ o.Foreign T
      (Level.acceptUnlessRead read word >>= fun b => if b = true then f else k) := by
  unfold Level.acceptUnlessRead
  split
  case isTrue => exact acceptThen hword hf hk
  case isFalse => exact hk

variable (h : g.Omits o)

include h

theorem limitOffset : o.Follows φ o.Foreign o.Foreign g.limitOffset := by
  refine acceptThen rfl ?_ .pure
  refine h.additive.bind fun _ => ?_
  refine Follows.of (T := o.Foreign) ?_
  refine acceptThen rfl h.additive.returns ?_
  exact acceptWordThen (by decide) h.additive.returns .pure

theorem fetch {ordinal : Keyword} {other : String} {wanted : Wanted}
    (hordinal : (TokenType.keyword ordinal).isSteady = true)
    (hother : Text.upper other ∉ stuckWords) :
    o.Follows φ o.Foreign o.Foreign (g.fetch ordinal other wanted) := by
  refine acceptThen rfl (Follows.of (T := o.Foreign) ?_) .pure
  refine acceptEitherThen hordinal hother ?_ refuseFor
  refine h.additive.bind fun _ => ?_
  refine rowsWord.of.bind fun _ => ?_
  exact (expect rfl).returns

theorem offsetFetch : o.Follows φ o.Foreign o.Foreign g.offsetFetch := by
  refine acceptThen rfl ?_ .pure
  refine h.additive.bind fun _ => ?_
  refine rowsWord.of.bind fun _ => ?_
  exact (h.fetch rfl (by decide)).of.returns

theorem fetchFirst : o.Follows φ o.Foreign o.Foreign g.fetchFirst := by
  have hoffset : o.Follows φ o.Foreign o.Foreign g.offsetRows :=
    acceptWordThen (by decide) (h.additive.bind fun _ => rowsWord.of.returns) .pure
  exact hoffset.bind fun _ => (h.fetch rfl (by decide)).returns

theorem limitOrOffset (range : RowRange) :
    o.Follows φ o.Foreign o.Foreign (g.limitOrOffset range) := by
  refine acceptUnlessReadThen rfl (acceptThen rfl .pure h.additive.returns) ?_
  refine acceptUnlessReadThen rfl (h.additive.bind fun _ => ?_) .pure
  exact rowsWordIfAny.of.returns

theorem rowRange (style : Option LimitStyle) :
    o.Follows φ o.Foreign o.Foreign (g.rowRange style) := by
  match style with
  | some .limitOffset => exact h.limitOffset
  | some .offsetFetch => exact h.offsetFetch
  | some .fetchFirst => exact h.fetchFirst
  | some .limitAndOffset =>
      exact .loop h.limitOrOffset (Level.advances_limitOrOffset h.forward_additive)
  | none => exact .pure

theorem limit : o.Follows φ o.Foreign o.Foreign g.limit := by
  refine (h.rowRange _).bind fun range => ?_
  split <;> exact .pure

/-! ## Sources -/

theorem selectItem : o.Follows φ Never o.Foreign g.selectItem := by
  refine h.expression.bind fun _ => ?_
  exact (aliasName_open g).returns

omit h in
theorem tableOf (g : Level) (path : NamePath) : o.Follows φ Never Never (g.tableOf path) := by
  obtain ⟨last, before⟩ := path
  match before with
  | [] => exact .pure
  | [_] => exact .pure
  | [_, _] => exact .pure
  | _ :: _ :: _ :: _ => exact refuse

omit h in
/-- A table is not named `AS`. -/
theorem tablePath (g : Level) : o.Follows φ Never Never g.tablePath := by
  refine testOrFail (fun c hat => ?_) (fun _ _ => startsName_eq) (namePath g) fun _ _ _ => nofun
  rw [Cursor.startsName, hat.nextType]
  rfl

omit h in
theorem tableName (g : Level) : o.Follows φ Never Never g.tableName := by
  refine (tablePath g).bind fun path => ?_
  exact (tableOf g path).returns

omit h in
theorem link (g : Level) : o.Follows φ Never Never g.link := by
  unfold Level.link
  split
  case isTrue =>
    refine acceptThen rfl ?_ .pure
    refine (namePart g).bind fun _ => ?_
    refine .map (.loop (fun _ => ?_) fun _ => ?_)
    · exact acceptThen rfl (namePart g).returns .pure
    · exact .acceptThen (Forward.spends fun _ => KeepsTo.namePart.less).returns .done
  case isFalse => exact .pure

theorem tableHints : o.Follows φ Never Never g.tableHints := by
  have hnext : ∀ c : Cursor, g.startsHints c = true →
      c.nextType = some (.keyword .WITH) ∧ c.secondType = some .lparen := by
    intro c hc
    obtain ⟨hfirst, hsecond⟩ := Bool.and_eq_true_iff.1 hc
    exact ⟨eq_of_beq (Bool.and_eq_true_iff.1 hfirst).2, eq_of_beq hsecond⟩
  refine testThen (.ofHead (fun c hc => ⟨_, (hnext c hc).1, rfl⟩) fun c d hapart hat => ?_) ?_ .pure
  · rw [Level.startsHints, Level.startsHints, hapart.nextType_eq hat,
      hapart.secondType_beq hat rfl]
  · have hparen : ∀ c : Cursor, g.startsHints c = true → c.step.nextType = some .lparen :=
      fun c hc => nextType_step (hnext c hc).1 (beq_iff_eq.2 (hnext c hc).2)
    refine takeKnowing (ψ := fun c => c.nextType = some .lparen) rfl
      (fun c hc => (hnext c hc.2).1) (fun c hc => hparen c hc.2) fun _ => ?_
    refine takeOf rfl fun _ => ?_
    refine (Follows.commaList h.unit).bind fun _ => ?_
    exact (expect rfl).returns

theorem namedSource : o.Follows φ Never Never g.namedSource := by
  refine (tablePath g).bind fun path => ?_
  refine isNextThen rfl ?_ ?_
  · refine (h.call path).bind fun _ => ?_
    exact (aliasName g).returns
  · refine (tableOf g path).bind fun _ => ?_
    refine (link g).bind fun _ => ?_
    exact (aliasName g).bind fun _ => h.tableHints.returns

theorem pivot (source : Expr) : o.Follows φ Never Never (g.pivot source) := by
  refine (expect rfl).bind fun _ => ?_
  refine (expect rfl).bind fun _ => ?_
  refine (namePart g).bind fun name => ?_
  refine (h.call ⟨name, []⟩).bind fun _ => ?_
  refine Follows.of (T := o.Foreign) ?_
  refine acceptWordThen (by decide) ?_ refuseFor
  refine h.additive.bind fun _ => ?_
  refine (expect rfl).bind fun _ => ?_
  refine (expect rfl).bind fun _ => ?_
  refine (Follows.commaList h.selectItem).bind fun _ => ?_
  refine (expect rfl).bind fun _ => ?_
  refine (expect rfl).bind fun _ => ?_
  exact (aliasName g).returns

omit h in
theorem joinKind : o.Follows φ o.Open o.Open Level.joinKind := by
  refine peekType ?_ fun next => ?_
  · rcases o.name_type with htype | htype <;> rw [htype] <;> rfl
  · cases next with
    | none => exact .pure
    | some type =>
        cases type with
        | keyword word =>
            cases word with
            | INNER => exact (takeOf rfl fun _ => .pure).when fun _ hc => hc.2
            | LEFT | RIGHT | FULL =>
                refine (takeOf rfl fun _ => ?_).when fun _ hc => hc.2
                exact (accept rfl).returns
            | _ => exact .pure
        | _ => exact .pure

theorem join (left : Expr) : o.Follows φ o.Open o.Open (g.join left) := by
  refine acceptThen rfl (h.below .source).returns ?_
  refine acceptThen rfl ?_ ?_
  · refine (expect rfl).bind fun _ => ?_
    exact (h.below .source).returns
  refine joinKind.bind fun kind => ?_
  cases kind with
  | none => exact .pure
  | some kind =>
      refine (expect rfl).bind fun _ => ?_
      refine (h.below .source).bind fun _ => ?_
      exact (expect rfl).bind fun _ => h.expression.returns

theorem sources : o.Follows φ Never o.Open g.sources := by
  have hjoins : ∀ n left, o.Follows (fun _ => True) o.Open o.Open (g.joinsFrom n left) := by
    intro n
    induction n with
    | zero => exact fun _ => throw
    | succ n ih =>
        intro left
        refine (h.join left).bind fun joined => ?_
        cases joined with
        | none => exact .pure
        | some joined => exact ih joined
  refine (h.below .source).anywhere.bind fun left => ?_
  exact (hjoins _ left).of

theorem plainSource : o.Follows φ Never Never g.plainSource := by
  refine isNextThen rfl ?_ h.namedSource
  refine testThen (.offWord ?_ fun _ _ hapart hat => hapart.startsQuery_tail_eq hat) ?_ ?_
  · exact fun c hc => not_atWord_of_nextType hc nofun
  · refine takeOffWord (fun c hc => not_atWord_of_nextType hc.1 nofun) fun _ => ?_
    refine (h.below .query).bind fun _ => ?_
    refine (expect rfl).bind fun _ => ?_
    exact (aliasName g).returns
  · refine takeOf rfl fun _ => ?_
    refine h.sources.bind fun _ => ?_
    exact (expect rfl).returns

theorem source : o.Follows φ Never Never g.source := by
  refine h.plainSource.bind fun _ => ?_
  refine .loop (fun source => ?_) fun source => ?_
  · exact isNextThen rfl (h.pivot source).anywhere.returns .pure
  · exact .testThen (.spends fun depth => (h.keeps depth).pivot.returns) .done

end Level.Omits

end SqlTree
