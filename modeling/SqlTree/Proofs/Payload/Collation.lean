import SqlTree.Grammar.Statement
import SqlTree.Proofs.Payload.Account

/-!
# Where collations come from

A rule for expressions gives a name with a collation on it only where that collation is the last
thing it has read, up to closing parentheses.  So when another collation follows, the two stand
next to each other among the tokens.
-/

namespace SqlTree

open SqlTree.Parser

def Expr.isCollated : Expr → Bool
  | .node (.identifier name) => name.collate.isSome
  | .node (.property _ _ _ collate _) => collate.isSome
  | _ => false

/-- A collation has been taken last, up to closing parentheses. -/
def Cursor.EndsCollated (c : Cursor) : Prop :=
  ∃ closing name collate before,
    c.behind = closing ++ name :: collate :: before ∧ (∀ token ∈ closing, token.type = .rparen) ∧
      collate.type = .keyword .COLLATE

namespace Cursor.EndsCollated

variable {c : Cursor} {token : Token} {tokens : List Token}

theorem repeats (hends : c.EndsCollated) (hnext : c.nextType = some (.keyword .COLLATE)) :
    RepeatsCollation c.tokens := by
  obtain ⟨closing, name, collate, before, hbehind, hclosing, hcollate⟩ := hends
  obtain ⟨second, after, hahead, hsecond⟩ := exists_ahead_of_nextType hnext
  refine ⟨before.reverse, collate, name, closing.reverse, second, after, ?_, hcollate, ?_, hsecond⟩
  · simp [Cursor.tokens, hbehind, hahead]
  · exact fun token htoken => hclosing token (List.mem_reverse.1 htoken)

/-- A closing parenthesis may follow. -/
theorem step (hends : c.EndsCollated) (hahead : c.ahead = token :: tokens)
    (htype : token.type = .rparen) : c.step.EndsCollated := by
  obtain ⟨closing, name, collate, before, hbehind, hclosing, hcollate⟩ := hends
  refine ⟨token :: closing, name, collate, before, ?_, ?_, hcollate⟩
  · rw [(Passes.step hahead).behind, hbehind]
    rfl
  · exact List.forall_mem_cons.2 ⟨htype, hclosing⟩

end Cursor.EndsCollated

/-- If the tree is a name with a collation on it, that collation was taken last. -/
def Expr.EndsAt (e : Expr) (c : Cursor) : Prop :=
  e.isCollated = true → c.EndsCollated

/-- A name with a collation on it is given only where that collation was taken last. -/
def Closes (p : Parser Expr) : Prop :=
  Leads (fun _ => True) p Expr.EndsAt

/-- No name with a collation on it is given. -/
abbrev GivesPlain (p : Parser Expr) : Prop :=
  Gives (fun e => e.isCollated = false) p

theorem Expr.endsAt_of_plain {e : Expr} {c : Cursor} (hplain : e.isCollated = false) : e.EndsAt c :=
  fun hcollated => absurd hcollated (Bool.eq_false_iff.1 hplain)

theorem GivesPlain.leads {P : Cursor → Prop} {p : Parser Expr} (h : GivesPlain p) :
    Leads P p Expr.EndsAt :=
  Leads.mono h (fun _ _ => trivial) fun _ _ => Expr.endsAt_of_plain

theorem Closes.leads {P : Cursor → Prop} {p : Parser Expr} (h : Closes p) :
    Leads P p Expr.EndsAt :=
  Leads.mono h (fun _ _ => trivial) fun _ _ => id

/-! ## Rules that give no name with a collation on it -/

namespace GivesPlain

variable {g : Level}

theorem isPredicate (left : Expr) : GivesPlain (g.isPredicate left) := by
  refine .after fun _ => ?_
  exact .after fun _ => .pure rfl

theorem between (left : Expr) (negated : Bool) : GivesPlain (g.between left negated) := by
  refine .after fun _ => ?_
  refine .after fun _ => ?_
  exact .after fun _ => .pure rfl

theorem membership (left : Expr) (negated : Bool) : GivesPlain (g.membership left negated) := by
  refine .after fun _ => ?_
  refine .after fun (_, _) => ?_
  exact .after fun _ => .pure rfl

theorem regex (left : Expr) (ignoresCase negated : Bool) :
    GivesPlain (g.regex left ignoresCase negated) :=
  .after fun _ => .pure rfl

theorem subscript (base : Expr) : GivesPlain (g.subscript base) := by
  refine .after fun lower => ?_
  refine .branch ?_ ?_
  · refine .after fun _ => ?_
    exact .after fun _ => .pure rfl
  · refine .after fun _ => ?_
    cases lower with
    | none => exact .refuse
    | some index => exact .pure rfl

theorem namePart : Gives (fun name => name.collate = none) g.namePart := by
  refine .branch ?_ .refuseFor
  refine .after fun token => ?_
  refine .pure ?_
  unfold Level.identifierOf
  split <;> rfl

theorem starPath : Gives (fun r => r.1.last.collate = none) g.starPath := by
  refine namePart.bind fun first hfirst => ?_
  refine .loop hfirst fun (path, _) hpath => ?_
  refine .branch ?_ (.pure hpath)
  refine .branch (.pure hpath) ?_
  exact namePart.bind fun name hname => .pure hname

theorem named : GivesPlain g.named := by
  refine starPath.bind fun (path, isStar) hlast => ?_
  cases isStar with
  | true => exact .pure rfl
  | false =>
      refine .branch (.after fun _ => .pure rfl) ?_
      obtain ⟨last, before⟩ := path
      match before with
      | [] => exact .pure (by simpa [Expr.isCollated] using hlast)
      | [_] => exact .pure rfl
      | [_, _] => exact .pure rfl
      | _ :: _ :: _ :: _ => exact .refuse

theorem caseOf : GivesPlain g.caseOf := by
  refine .after fun operand => ?_
  refine .after fun items => ?_
  cases items with
  | nil => exact .refuseFor
  | cons item items =>
      refine .after fun _ => ?_
      exact .after fun _ => .pure rfl

theorem keywordUnit (word : Keyword) : GivesPlain (g.keywordUnit word) := by
  cases word with
  | NULL | TRUE | FALSE => exact .after fun _ => .pure rfl
  | NOT | EXISTS =>
      refine .after fun _ => ?_
      exact .after fun _ => .pure rfl
  | CASE => exact .after fun _ => caseOf
  | INTERVAL =>
      refine .after fun _ => ?_
      refine .after fun _ => ?_
      exact .after fun _ => .pure rfl
  | ANY | ALL =>
      refine .branch ?_ .refuseFound
      refine .after fun _ => ?_
      exact .after fun _ => .pure rfl
  | ARRAY =>
      refine .branch ?_ .refuseFound
      refine .after fun _ => ?_
      refine .after fun _ => ?_
      refine .after fun _ => ?_
      exact .after fun _ => .pure rfl
  | _ => exact .branch named .refuseFound

theorem variableName : GivesPlain g.variableName := by
  refine .after fun _ => ?_
  refine .after fun _ => ?_
  refine .branch ?_ .refuseFor
  exact .after fun _ => .pure rfl

end GivesPlain

/-! ## Where names with a collation on them are given -/

namespace Closes

variable {g : Level} {P : Cursor → Prop} {e left : Expr} {p : Parser Expr}

/-- A turn of a loop that gives no name with a collation on it. -/
theorem turn {p : Parser (Turn Expr)} (h : Gives (fun t => t.value.isCollated = false) p) :
    Leads P p fun t => t.value.EndsAt :=
  Leads.mono h (fun _ _ => trivial) fun _ _ => Expr.endsAt_of_plain

/-- A last turn of a loop that gives no name with a collation on it. -/
theorem done (h : GivesPlain p) :
    Leads P (p >>= fun e => pure (Turn.done e)) fun t => t.value.EndsAt :=
  turn (h.bind fun _ he => .pure he)

theorem chain {operator? : TokenType → Option BinaryOp} {operand : Parser Expr}
    (hoperand : Closes operand) : Closes (g.chain operator? operand) := by
  refine Leads.bind hoperand fun first => ?_
  refine .loop (fun left => .peekType fun next => ?_) first
  cases next.bind operator? with
  | none => exact .pure fun _ hc => hc.1
  | some op =>
      refine turn (.after fun _ => ?_)
      exact .after fun _ => .pure rfl

theorem additive (h : Closes (g.below .operand)) : Closes g.additive :=
  chain (chain h)

/-- A word that takes `NOT` follows when a `NOT` has been taken. -/
theorem predicateNot : Leads P Level.predicateNot fun _ c =>
    P c ∨ (c.nextType.map TokenType.takesNot).getD false = true := by
  refine .testThen (fun c b d hc hb => .inr ?_) (.pure fun _ hc => .inl hc.1)
  obtain ⟨token, c', htake, hb⟩ := bind_eq_ok.1 hb
  have hsecond := (Bool.and_eq_true_iff.1 hc.2).2
  obtain ⟨behind, _ | ⟨first, ahead⟩, depth⟩ := c
  · cases htake
  · cases htake
    cases hb
    exact hsecond

theorem wordPredicate (left : Expr) :
    Leads left.EndsAt (g.wordPredicate left) fun t => t.value.EndsAt := by
  refine predicateNot.bind fun negated => ?_
  refine .acceptThen (turn (.after fun _ => .pure rfl)) ?_
  refine .acceptThen (turn (.after fun _ => .pure rfl)) ?_
  refine .acceptThen (done (GivesPlain.between left negated)) ?_
  refine .acceptThen (done (GivesPlain.membership left negated)) ?_
  refine .acceptThen (done (GivesPlain.regex left _ negated)) ?_
  refine .pure fun c hc => ?_
  obtain ⟨⟨⟨⟨⟨hends | htakes, hlike⟩, hilike⟩, hbetween⟩, hin⟩, hregexp⟩ := hc
  · exact hends
  · cases hnext : c.nextType with
    | none =>
        rw [hnext] at htakes
        cases htakes
    | some type =>
        rw [hnext] at htakes hlike hilike hbetween hin hregexp
        simp only [Option.map_some, Option.getD_some] at htakes
        unfold TokenType.takesNot at htakes
        split at htakes <;> contradiction

theorem predicate (left : Expr) :
    Leads left.EndsAt (g.predicate left) fun t => t.value.EndsAt := by
  refine .peekType fun next => ?_
  cases next.bind TokenType.comparison? with
  | some op =>
      refine turn (.after fun _ => ?_)
      exact .after fun _ => .pure rfl
  | none =>
      refine .acceptThen (done (GivesPlain.isPredicate left)) ?_
      cases next.bind TokenType.regexSign? with
      | some sign => exact .after fun _ => done (GivesPlain.regex left _ _)
      | none => exact (wordPredicate left).mono (fun _ hc => hc.1.1) fun _ _ => id

theorem relational (h : Closes (g.below .operand)) : Closes g.relational :=
  (additive h).bind fun left => .loop predicate left

theorem negation (h : Closes (g.below .operand)) : Closes g.negation :=
  .acceptThen (GivesPlain.leads (.after fun _ => .pure rfl)) (relational h).leads

theorem expression (h : Closes (g.below .operand)) : Closes g.expression :=
  chain (chain (chain (negation h)))

/-! ## Units and operands -/

theorem parenthesized (h : Closes (g.below .operand)) : Closes g.parenthesized := by
  refine Leads.after fun _ => .testThen ?_ ?_
  · exact GivesPlain.leads (.after fun _ => .after fun _ => .pure rfl)
  · refine (expression h).leads.bind fun e => ?_
    intro c e' d hends hclose
    obtain ⟨token, c', hexpect, hpure⟩ := bind_eq_ok.1 hclose
    obtain ⟨tokens, hahead, htype, rfl⟩ := expect_eq_ok.1 hexpect
    cases hpure
    exact fun hcollated => (hends hcollated).step hahead htype

theorem unit (h : Closes (g.below .operand)) : Closes g.unit := by
  refine .peekType fun next => ?_
  cases next with
  | none => exact .refuseFor
  | some type =>
      cases type with
      | lparen => exact (parenthesized h).leads
      | number | string | nationalString | star =>
          exact GivesPlain.leads (.after fun _ => .pure rfl)
      | atSign | colon => exact GivesPlain.variableName.leads
      | identifier | quotedIdentifier => exact GivesPlain.named.leads
      | keyword word => exact (GivesPlain.keywordUnit word).leads
      | _ => exact .refuseFound

/-- The name of a collation has been taken behind `COLLATE`. -/
theorem endsCollated : Leads (fun c => c.behind.head?.map Token.type = some (.keyword .COLLATE))
    g.collate fun _ c => c.EndsCollated := by
  refine .testThen (fun c collation d hc hcollation => ?_) .refuseFor
  obtain ⟨name, c', htake, hpure⟩ := bind_eq_ok.1 hcollation
  obtain ⟨behind, _ | ⟨_, ahead⟩, depth⟩ := c
  · cases htake
  · cases htake
    cases hpure
    cases behind with
    | nil => cases hc.1
    | cons collate before =>
        exact ⟨[], name, collate, before, rfl, List.forall_mem_nil _, Option.some.inj hc.1⟩

theorem withCollate (e : Expr) (collate : Collate) :
    Leads Cursor.EndsCollated (g.withCollate e collate) Expr.EndsAt := by
  unfold Level.withCollate
  cases e.collated? collate with
  | some e' => exact .pure fun _ hends _ => hends
  | none => exact .throw

theorem suffix (e : Expr) : Leads e.EndsAt (g.suffix e) fun t => t.value.EndsAt := by
  refine .acceptThen (turn ((GivesPlain.subscript e).bind fun _ he => .pure he)) ?_
  refine .testThen ?_ ?_
  · refine turn (.after fun _ => ?_)
    refine .after fun _ => ?_
    exact .branch (.after fun _ => .pure rfl) .refuseFor
  · refine .acceptThen ?_ (.pure fun _ hc => hc.1.1.1)
    refine endsCollated.bind fun collate => ?_
    refine (withCollate e collate).bind fun _ => ?_
    exact .pure fun _ => id

theorem operand (h : Closes (g.below .operand)) : Closes g.operand := by
  refine Leads.after fun _ => ?_
  refine .acceptThen (GivesPlain.leads ?_) ?_
  · refine .branch ?_ ?_
    · exact .after fun _ => .pure rfl
    · exact .after fun _ => .pure rfl
  · exact (unit h).leads.bind fun e => .loop suffix e

/-- Operands give a name with a collation on it only behind that collation, on any nesting level. -/
theorem produce (settings : Settings) (levels : Nat) :
    Closes (Level.produce settings levels .operand) := by
  induction levels with
  | zero => exact .throw
  | succ levels ih =>
      intro c e d _ hnested
      obtain ⟨d', hoperand, rfl⟩ := nested_eq_ok.1 hnested
      exact operand ih _ e d' trivial hoperand

end Closes

end SqlTree
