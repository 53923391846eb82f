import SqlTree.Proofs.Likeness.Expression

/-!
# Like units and operands

What no operator can enter is read alike, and so is an operand with its sign and its suffixes.
-/

namespace SqlTree

open SqlTree.Parser

/-- A plain word is no bracket. -/
theorem Token.not_isBracket_of_isThisWord {token : Token} {word : String}
    (hword : token.isThisWord word = true) : token.type.isBracket = false := by
  have hisWord := (Bool.and_eq_true_iff.1 hword).1
  cases htype : token.type <;> first | rfl | (rw [htype] at hisWord; cases hisWord)

/-- Before the sort within a group stand a word and a keyword. -/
theorem Cursor.within_group {c : Cursor} (hstarts : Level.startsWithinGroup c = true) :
    (∀ {type}, c.nextType = some type → type.isBracket = false) ∧
      c.secondType = some (.keyword .GROUP) := by
  obtain ⟨behind, _ | ⟨token, ahead⟩, depth⟩ := c
  · cases hstarts
  · obtain ⟨hword, hsecond⟩ := Bool.and_eq_true_iff.1 hstarts
    refine ⟨fun htype => ?_, eq_of_beq hsecond⟩
    exact Option.some.inj htype ▸ Token.not_isBracket_of_isThisWord hword

/-- Relabelling keeps the kind of a node. -/
theorem Expr.kind_relabel (r : Relabel) (e : Expr) : (e.relabel r).kind = e.kind := by
  obtain ⟨n⟩ := e
  rw [Expr.relabel_node]
  cases n <;> rfl

/-- Relabelling a name and its collation relabels the name with the collation on it. -/
theorem Expr.relabelAll_collated? (r : Relabel) (collate : Collate) (e : Expr) :
    relabelAll r (e.collated? collate) = (relabelAll r e).collated? (relabelAll r collate) := by
  obtain ⟨n⟩ := e
  cases n <;> simp [relabelAll, Expr.collated?, Expr.relabel_node, Node.map, Node.relabel,
    Identifier.relabel]

/-- Two words that stand next are no brackets. -/
theorem Cursor.next_words {c : Cursor} {first second : String}
    (hwords : (match c.ahead with
      | a :: b :: _ => a.isThisWord first && b.isThisWord second
      | _ => false) = true) :
    (∀ {type}, c.nextType = some type → type.isBracket = false) ∧
      ∀ {type}, c.secondType = some type → type.isBracket = false := by
  obtain ⟨behind, _ | ⟨a, _ | ⟨b, ahead⟩⟩, depth⟩ := c
  · cases hwords
  · cases hwords
  · obtain ⟨hfirst, hsecond⟩ := Bool.and_eq_true_iff.1 hwords
    refine ⟨fun htype => ?_, fun htype => ?_⟩
    · exact Option.some.inj htype ▸ Token.not_isBracket_of_isThisWord hfirst
    · exact Option.some.inj htype ▸ Token.not_isBracket_of_isThisWord hsecond

namespace Likeness

variable {L : Likeness}

theorem shared_startsWithinGroup (hL : L.Lawful) : L.Shared Level.startsWithinGroup := by
  intro base s c d habreast
  have hsecond := habreast.secondType hL
  unfold Level.startsWithinGroup
  rw [hsecond]
  have hahead := habreast.ahead
  cases hc : c.ahead with
  | nil =>
      cases hd : d.ahead with
      | nil => rfl
      | cons b bs =>
          rw [hc, hd] at hahead
          cases hahead
  | cons a as =>
      cases hd : d.ahead with
      | nil =>
          rw [hc, hd] at hahead
          cases hahead
      | cons b bs =>
          rw [hc, hd] at hahead
          simp only [isThisWord_eq hL (List.forall₂_cons.1 hahead).1]

theorem shared_areNextWords (hL : L.Lawful) {first second : String} :
    L.Shared fun c : Cursor =>
      match c.ahead with
      | a :: b :: _ => a.isThisWord first && b.isThisWord second
      | _ => false := by
  rintro base s ⟨behind, ahead, depth⟩ ⟨behind', ahead', depth'⟩ habreast
  cases habreast.ahead with
  | nil => rfl
  | cons hfirst htail =>
      cases htail with
      | nil => rfl
      | cons hsecond _ => simp only [isThisWord_eq hL hfirst, isThisWord_eq hL hsecond]

theorem shared_lacksOperand (hL : L.Lawful) : L.Shared Level.lacksOperand := by
  intro base s c d habreast
  unfold Level.lacksOperand
  rw [habreast.nextType hL]

theorem isTimeUnit_eq (hL : L.Lawful) {a b : Token} (hab : L.token a b) :
    Level.isTimeUnit a = Level.isTimeUnit b := by
  unfold Level.isTimeUnit
  rw [← hL.type hab]
  by_cases hword : a.type = .identifier
  · have hisWord : a.type.isWord = true := congrArg TokenType.isWord hword
    simp only [Text.sameWord, hL.word hab hisWord]
  · rw [beq_eq_false_iff_ne.2 hword, Bool.false_and, Bool.false_and]

namespace Levels

variable {g g' : Level}

/-! ## Clauses of calls -/

theorem nullsOrder (h : L.Levels g g') : L.Kept Eq Level.nullsOrder Level.nullsOrder := by
  intro s
  refine .branch (kept_acceptWord h.lawful s) ?_ (.pure rfl)
  refine .branch (kept_acceptWord h.lawful s) (.pure rfl) ?_
  exact .branch (kept_acceptWord h.lawful s) (.pure rfl) (.refuseFor h.lawful)

theorem sortOrder (h : L.Levels g g') : L.Kept Eq Level.sortOrder Level.sortOrder := by
  intro s
  refine .accept h.lawful rfl (.pure rfl) ?_
  exact .accept h.lawful rfl (.pure rfl) (.pure rfl)

theorem orderItem (h : L.Levels g g') : L.Kept L.Like g.orderItem g'.orderItem := by
  intro s
  refine (h.expression s).bind fun e e' he => ?_
  refine (h.sortOrder s).bind_eq fun order => ?_
  refine (h.nullsOrder s).bind_eq fun nulls => ?_
  exact .pure (.orderItem he h.tag)

theorem orderBy (h : L.Levels g g') : L.Kept L.Like g.orderBy g'.orderBy := by
  intro s
  refine (kept_acceptKeyword h.lawful s).bind_eq fun siblings => ?_
  refine (kept_expectKeyword h.lawful s).bind fun _ _ _ => ?_
  refine (h.commaList h.orderItem s).bind fun _ _ hitems => ?_
  exact .pure (.orderBy hitems h.tag)

theorem partitionBy (h : L.Levels g g') : L.Kept L.Like g.partitionBy g'.partitionBy := by
  intro s
  refine (kept_expectKeyword h.lawful s).bind fun _ _ _ => ?_
  refine (h.commaList h.expression s).bind fun _ _ hitems => ?_
  exact .pure (.partitionBy hitems h.tag)

theorem window (h : L.Levels g g') : L.Kept L.Like g.window g'.window := by
  intro s
  refine (moves_expect h.lawful rfl).bind fun _ _ _ => ?_
  refine (kept_afterKeyword h.lawful h.partitionBy _).bind fun _ _ hpartition => ?_
  refine (kept_afterKeyword h.lawful h.orderBy _).bind fun _ _ horder => ?_
  refine (moves_expect h.lawful rfl).bind fun _ _ _ => ?_
  exact .pure (.window hpartition horder h.tag)

theorem withinGroup (h : L.Levels g g') : L.Kept L.Like g.withinGroup g'.withinGroup := by
  intro s
  refine .testThen (shared_startsWithinGroup h.lawful) ?_ (.pure .none)
  refine .takeTwo h.lawful (t := s) (fun c type hφ htype => ?_) (fun c type hφ htype => ?_) ?_
  · exact (Cursor.within_group hφ.2).1 htype
  · exact Option.some.inj ((Cursor.within_group hφ.2).2 ▸ htype) ▸ rfl
  refine (moves_expect h.lawful rfl).bind fun _ _ _ => ?_
  refine (kept_expectKeyword h.lawful _).bind fun _ _ _ => ?_
  refine (h.orderBy _).bind fun _ _ horder => ?_
  refine (moves_expect h.lawful rfl).bind fun _ _ _ => ?_
  exact .pure (.some (.withinGroup horder h.tag))

theorem listBefore {α : Type} [Relabels α] (h : L.Levels g g') {closing : TokenType}
    {items items' : Parser (List α)} (hitems : L.Kept L.Like items items') :
    L.Kept L.Like (Level.listBefore closing items) (Level.listBefore closing items') :=
  fun s => .branch (kept_isNext h.lawful s) (.pure .nil) (hitems s)

theorem call (h : L.Levels g g') {path path' : NamePath} (hpath : L.Like path path') :
    L.Kept L.Like (g.call path) (g'.call path') := by
  intro s
  refine (moves_expect h.lawful rfl).bind fun _ _ _ => ?_
  refine (kept_acceptKeyword h.lawful _).bind_eq fun distinct => ?_
  refine (h.listBefore (h.commaList h.expression) _).bind fun _ _ harguments => ?_
  refine (moves_expect h.lawful rfl).bind fun _ _ _ => ?_
  refine (h.withinGroup s).bind fun _ _ hwithin => ?_
  refine (kept_afterKeyword h.lawful h.window s).bind fun _ _ hwindow => ?_
  exact .pure (.call (Like.owner hpath) (like_path.1 hpath).1 harguments hwithin hwindow h.tag)

/-! ## Columns and calls -/

theorem starPath (h : L.Levels g g') :
    L.Kept (fun x y => L.Like x.1 y.1 ∧ x.2 = y.2) g.starPath g'.starPath := by
  intro s
  refine (h.namePart s).bind fun first first' hfirst => ?_
  refine Kept.loop (fun x y hxy t => ?_) ⟨like_path.2 ⟨hfirst, .nil⟩, rfl⟩ s
  refine .accept h.lawful rfl ?_ (.pure (.done ⟨hxy.1, rfl⟩))
  refine .accept h.lawful rfl (.pure (.done ⟨hxy.1, rfl⟩)) ?_
  refine (h.namePart t).bind fun _ _ hname => ?_
  exact .pure (.again ⟨Like.push hxy.1 hname, rfl⟩)

theorem column (h : L.Levels g g') {path path' : NamePath} (hpath : L.Like path path') :
    L.Kept L.Like (g.column path) (g'.column path') := by
  intro s
  cases hpath.paths with
  | alone hlast => exact .pure (.identifier hlast)
  | owned hlast howner => exact .pure (.property .none howner hlast .none h.tag)
  | ownedTwice hlast howner hschema =>
      exact .pure (.property (.some hschema) howner hlast .none h.tag)
  | long htexts => exact .refuse h.lawful (.longColumnName htexts)

theorem named (h : L.Levels g g') : L.Kept L.Like g.named g'.named := by
  intro s
  refine (h.starPath s).bind fun (path, isStar) (path', isStar') ⟨hpath, hstar⟩ => ?_
  cases hstar
  cases isStar with
  | true => exact .pure (.allColumns (Like.parts hpath) h.tag)
  | false =>
      refine .branch (kept_isNext h.lawful s) ?_ (h.column hpath s)
      refine (h.call hpath s).bind fun _ _ hcall => ?_
      exact .pure (.callNode hcall)

/-! ## Units -/

theorem caseItemsFrom (h : L.Levels g g') {n n' : Nat}
    (hcounts : L.Counts .caseItems g.settings.maxIterations g'.settings.maxIterations n n')
    {done done' : List (CaseItem Expr)} (hdone : L.Like done done') :
    L.Kept L.Like (g.caseItemsFrom n done) (g'.caseItemsFrom n' done') := by
  intro s
  unfold Level.caseItemsFrom
  refine .branch (kept_acceptKeyword h.lawful s) ?_ (.pure (Like.reverse hdone))
  refine (h.expression s).bind fun _ _ hcondition => ?_
  refine (kept_expectKeyword h.lawful s).bind fun _ _ _ => ?_
  refine (h.expression s).bind fun _ _ hresult => ?_
  match n, n' with
  | 0, 0 => exact hcounts.throwBoth h.lawful
  | 0, _ + 1 => exact hcounts.throwFirst
  | _ + 1, 0 => exact hcounts.throwSecond
  | n + 1, n' + 1 =>
      exact caseItemsFrom h hcounts.pred (.cons (.caseItem hcondition hresult h.tag) hdone) s

theorem caseOperand (h : L.Levels g g') : L.Kept L.Like g.caseOperand g'.caseOperand := by
  intro s
  refine .testThen (shared_lacksOperand h.lawful) (.pure .none) (Moves.reads ?_)
  exact (h.expression s).map fun _ _ => .some

theorem caseOf (h : L.Levels g g') : L.Kept L.Like g.caseOf g'.caseOf := by
  intro s
  refine (h.caseOperand s).bind fun operand operand' hoperand => ?_
  refine (h.caseItemsFrom h.counts .nil s).bind fun items items' hitems => ?_
  rw [← Like.isEmpty_eq hitems]
  cases items.isEmpty with
  | true => exact .refuseFor h.lawful
  | false =>
      refine (kept_afterKeyword h.lawful h.expression s).bind fun _ _ hotherwise => ?_
      refine (kept_expectKeyword h.lawful s).bind fun _ _ _ => ?_
      exact .pure (.caseOf hoperand hitems hotherwise h.tag)

theorem parenthesizedQuery (h : L.Levels g g') :
    L.Kept L.Like g.parenthesizedQuery g'.parenthesizedQuery := by
  intro s
  refine (moves_expect h.lawful rfl).bind fun _ _ _ => ?_
  refine (h.below .query _).bind fun _ _ hquery => ?_
  refine (moves_expect h.lawful rfl).bind fun _ _ _ => ?_
  exact .pure (h.subquery hquery)

/-- An expression and the parenthesis that closes behind it. -/
theorem expressionClosed (h : L.Levels g g') {s : List Bracket} :
    L.Moves L.Like (.round :: s) s
      (g.expression >>= fun e => expect .rparen >>= fun _ => pure e)
      (g'.expression >>= fun e => expect .rparen >>= fun _ => pure e) := by
  refine (h.expression _).bind fun _ _ he => ?_
  exact (moves_expect h.lawful rfl).bind fun _ _ _ => .pure he

theorem quantified (h : L.Levels g g') : L.Kept L.Like g.quantified g'.quantified := by
  intro s
  refine .testThen (shared_startsQuery_tail h.lawful) (h.parenthesizedQuery s).reads
    (Moves.reads ?_)
  exact (moves_expect h.lawful rfl).bind fun _ _ _ => h.expressionClosed

theorem parenthesized (h : L.Levels g g') : L.Kept L.Like g.parenthesized g'.parenthesized := by
  intro s
  refine (moves_expect h.lawful rfl).bind fun _ _ _ => ?_
  refine .testThen (shared_startsQuery h.lawful) (Moves.reads ?_) h.expressionClosed.reads
  refine (h.below .query _).bind fun _ _ hquery => ?_
  refine (moves_expect h.lawful rfl).bind fun _ _ _ => ?_
  exact .pure (h.subquery hquery)

theorem array (h : L.Levels g g') : L.Kept L.Like g.array g'.array := by
  intro s
  refine (moves_expect h.lawful rfl).bind fun _ _ _ => ?_
  refine (h.listBefore (h.commaList h.expression) _).bind fun _ _ helements => ?_
  refine (moves_expect h.lawful rfl).bind fun _ _ _ => ?_
  exact .pure (.array helements h.tag)

theorem timeUnit (h : L.Levels g g') : L.Kept L.Like g.timeUnit g'.timeUnit := by
  intro s
  refine .testThen (.ofNext fun a b => isTimeUnit_eq h.lawful) ?_ (.pure .none)
  refine .takePlain h.lawful (fun c type hφ => ?_) fun a b hab => ?_
  · refine Cursor.not_isBracket_of_next (fun token hunit => ?_) hφ.2
    rw [eq_of_beq (Bool.and_eq_true_iff.1 hunit).1]
    rfl
  · exact .pure (.some (.timeUnit (h.lawful.upper (h.lawful.text hab)) h.tag))

theorem interval (h : L.Levels g g') : L.Kept L.Like g.interval g'.interval := by
  intro s
  refine (h.below .intervalValue s).bind fun _ _ hvalue => ?_
  refine (h.timeUnit s).bind fun _ _ hunit => ?_
  exact .pure (.interval hvalue hunit h.tag)

theorem keywordUnit (h : L.Levels g g') {s : List Bracket} {word : Keyword} :
    L.Reads (fun c => c.nextType = some (.keyword word)) L.Like s s (g.keywordUnit word)
      (g'.keywordUnit word) := by
  cases word with
  | NULL => exact .takeOf h.lawful (fun _ => id) rfl fun _ _ _ => .pure h.null
  | TRUE => exact .takeOf h.lawful (fun _ => id) rfl fun _ _ _ => .pure h.bool
  | FALSE => exact .takeOf h.lawful (fun _ => id) rfl fun _ _ _ => .pure h.bool
  | NOT =>
      refine .takeOf h.lawful (fun _ => id) rfl fun _ _ _ => ?_
      refine (h.negation s).bind fun _ _ he => ?_
      exact .pure (.not he h.tag)
  | CASE => exact .takeOf h.lawful (fun _ => id) rfl fun _ _ _ => h.caseOf s
  | EXISTS =>
      refine .takeOf h.lawful (fun _ => id) rfl fun _ _ _ => ?_
      refine (h.parenthesizedQuery s).bind fun _ _ he => ?_
      exact .pure (.existence he h.tag)
  | INTERVAL => exact .takeOf h.lawful (fun _ => id) rfl fun _ _ _ => h.interval s
  | ANY =>
      refine .testThen (.ofTypes h.lawful fun _ second => second == some .lparen) ?_
        (.refuseFound h.lawful .inExpression)
      refine .takeOf h.lawful (fun _ hφ => hφ.1) rfl fun _ _ _ => ?_
      refine (h.quantified s).bind fun _ _ he => ?_
      exact .pure (.any he h.tag)
  | ALL =>
      refine .testThen (.ofTypes h.lawful fun _ second => second == some .lparen) ?_
        (.refuseFound h.lawful .inExpression)
      refine .takeOf h.lawful (fun _ hφ => hφ.1) rfl fun _ _ _ => ?_
      refine (h.quantified s).bind fun _ _ he => ?_
      exact .pure (.all he h.tag)
  | ARRAY =>
      refine .testThen (.ofTypes h.lawful fun _ second => second == some .lbracket) ?_
        (.refuseFound h.lawful .inExpression)
      exact .takeOf h.lawful (fun _ hφ => hφ.1) rfl fun _ _ _ => h.array s
  | _ =>
      refine .testThen (fun base s c d habreast => ?_) (h.named s).reads
        (.refuseFound h.lawful .inExpression)
      rw [shared_startsName h.lawful habreast, shared_startsKeywordCall h.lawful habreast]

theorem unit (h : L.Levels g g') : L.Kept L.Like g.unit g'.unit := by
  intro s
  refine .peekType h.lawful fun next => ?_
  cases next with
  | none => exact .refuseFor h.lawful
  | some type =>
      cases type with
      | lparen => exact (h.parenthesized s).reads
      | number =>
          refine .takeOf h.lawful (fun _ => id) rfl fun a b hab => ?_
          exact .pure (h.number (h.lawful.text hab))
      | string =>
          refine .takeOf h.lawful (fun _ => id) rfl fun a b hab => ?_
          exact .pure (.string (h.lawful.text hab) h.tag)
      | nationalString =>
          refine .takeOf h.lawful (fun _ => id) rfl fun a b hab => ?_
          exact .pure (.string (h.lawful.text hab) h.tag)
      | star =>
          refine .takeOf h.lawful (fun _ => id) rfl fun _ _ _ => ?_
          exact .pure (.allColumns .nil h.tag)
      | atSign => exact h.variableName rfl
      | colon => exact h.variableName rfl
      | identifier => exact (h.named s).reads
      | quotedIdentifier => exact (h.named s).reads
      | keyword word => exact h.keywordUnit
      | _ => exact .refuseFound h.lawful .inExpression

/-! ## Operands -/

theorem bound (h : L.Levels g g') {behind : TokenType} :
    L.Kept L.Like (g.bound behind) (g'.bound behind) :=
  fun s => .branch (kept_isNext h.lawful s) (.pure .none)
    ((h.additive s).map fun _ _ => .some)

theorem subscript (h : L.Levels g g') {base base' : Expr} (hbase : L.Like base base')
    {s : List Bracket} :
    L.Moves L.Like (.square :: s) s (g.subscript base) (g'.subscript base') := by
  refine (h.bound _).bind fun lower lower' hlower => ?_
  refine .accept h.lawful rfl ?_ ?_
  · refine (h.bound _).bind fun upper upper' hupper => ?_
    refine (moves_expect h.lawful rfl).bind fun _ _ _ => ?_
    exact .pure (.arraySlice hbase hlower hupper h.tag)
  · refine (moves_expect h.lawful rfl).bind fun _ _ _ => ?_
    cases lower with
    | none =>
        obtain rfl := Like.eq_none hlower
        exact .refuse h.lawful .missingIndex
    | some index =>
        obtain ⟨index', rfl, hindex⟩ := Like.exists_some hlower
        exact .pure (.arrayIndex hbase hindex h.tag)

theorem unsupported (h : L.Levels g g') {e e' : Expr} (he : L.Like e e') :
    L.error (.unsupported (.collateOn e.kind) g.dialectName)
      (.unsupported (.collateOn e'.kind) g'.dialectName) := by
  have hkind : e.kind = e'.kind := by
    rw [← Expr.kind_relabel L.firstLabel, ← Expr.kind_relabel L.secondLabel e']
    exact congrArg Expr.kind he
  rw [hkind, Level.dialectName, Level.dialectName, Level.tag, Level.tag, h.settings, h.settings']
  exact h.lawful.unsupported _

theorem withCollate (h : L.Levels g g') {e e' : Expr} (he : L.Like e e')
    {collate collate' : Collate} (hcollate : L.Like collate collate') :
    L.Kept L.Like (g.withCollate e collate) (g'.withCollate e' collate') := by
  intro s
  have hcollated : L.Like (e.collated? collate) (e'.collated? collate') := by
    rw [Like, Expr.relabelAll_collated?, Expr.relabelAll_collated?, he, hcollate]
  unfold Level.withCollate
  cases hc : e.collated? collate with
  | none =>
      rw [hc] at hcollated
      rw [Like.eq_none hcollated]
      exact .throw (h.unsupported he)
  | some a =>
      rw [hc] at hcollated
      obtain ⟨b, hb, hab⟩ := Like.exists_some hcollated
      rw [hb]
      exact .pure hab

theorem suffix (h : L.Levels g g') {e e' : Expr} (he : L.Like e e') :
    L.Kept (Turns L.Like) (g.suffix e) (g'.suffix e') := by
  intro s
  refine .accept h.lawful rfl ?_ ?_
  · refine (h.subscript he).bind fun _ _ he => ?_
    exact .pure (.again he)
  refine .testThen (shared_areNextWords h.lawful) ?_ ?_
  · refine .takeTwo h.lawful (t := s) (fun c type hφ htype => (Cursor.next_words hφ.2).1 htype)
      (fun c type hφ htype => ?_) ?_
    · exact Bracket.step_of_not_isBracket ((Cursor.next_words hφ.2).2 htype) s
    refine .branch (kept_acceptWord h.lawful s) ?_ (.refuseFor h.lawful)
    refine (h.unit s).bind fun _ _ hzone => ?_
    exact .pure (.again (.atTimeZone he hzone h.tag))
  · refine .accept h.lawful rfl ?_ (.pure (.done he))
    refine (h.collate s).bind fun _ _ hcollate => ?_
    refine (h.withCollate he hcollate s).bind fun _ _ he => ?_
    exact .pure (.again he)

theorem plusSigns (h : L.Levels g g') : L.Kept Eq Level.plusSigns Level.plusSigns := by
  refine Kept.loop (fun _ _ _ _ => ?_) rfl
  exact .accept h.lawful rfl (.pure (.again rfl)) (.pure (.done rfl))

theorem operand (h : L.Levels g g') : L.Kept L.Like g.operand g'.operand := by
  intro s
  refine (h.plusSigns s).bind_eq fun _ => ?_
  refine .accept h.lawful rfl ?_ ?_
  · refine .isNextThen h.lawful ?_ ?_
    · refine .takeOf h.lawful (fun _ => id) rfl fun a b hab => ?_
      exact .pure (h.number (h.lawful.append (h.lawful.constant "-") (h.lawful.text hab)))
    · refine (h.below .operand s).bind fun _ _ he => ?_
      exact .pure (.negate he h.tag)
  · refine (h.unit s).reads.bind fun _ _ he => ?_
    exact Kept.loop (fun _ _ he => h.suffix he) he s

end Levels

end Likeness

end SqlTree
