import SqlTree.Proofs.Rereading.Reading

/-!
# Each kind of node

A node whose children are read as what stands in their places is read as itself: names, constants
and signs first, then operators, predicates, and the nodes that hold lists.
-/

namespace SqlTree

open Text Lexer

variable {maxSteps : Nat} {tag tag' : Tag} {rest : List Char} {tokens : List Token}
  {negatable : Bool} {e left right operand low high pattern : Expr}

/-! ## Names and variables -/

theorem Identifier.Plain.relabel_eq {name : Identifier} {token : Token} (hname : name.Plain)
    (htext : token.text = name.value) : name.relabel (.stamp tag) = token.plainName tag := by
  obtain ⟨value, left, right, collate, tag'⟩ := name
  obtain ⟨-, rfl, rfl, rfl⟩ := hname
  rw [Token.plainName, htext]
  rfl

/-- A name and a text after it. -/
theorem Identifier.Plain.spells {name : Identifier} {cs : List Char} {R : List Token → Prop}
    (tag : Tag) (hname : name.Plain) (hrest : Stops continuesWord (cs ++ rest))
    (after : ∀ token : Token, token.type = .identifier →
      name.relabel (.stamp tag) = token.plainName tag →
      Spells (.postgreSql maxSteps) cs rest fun more => R (token :: more)) :
    Spells (.postgreSql maxSteps) (name.value.toList ++ cs) rest R := by
  refine (hname.word.spells hrest).token fun token htype htext => ?_
  exact after token htype (hname.relabel_eq htext)

namespace Expr

theorem reads_identifier {name : Identifier} (hname : name.Plain) :
    (node (.identifier name)).Reads maxSteps tag (.ofRoot negatable) := by
  intro rest hrest
  rw [written_identifier hname, relabel_node, ← List.append_nil name.value.toList]
  refine hname.spells tag hrest.word fun token htype hlabel => .nil ?_
  have hunit : Derives tag .unit [token] (.node (.identifier (token.plainName tag))) :=
    .name htype
  rw [← hlabel] at hunit
  exact hunit.ofUnit negatable

theorem stops_dot (cs : List Char) : Stops continuesWord ('.' :: cs) :=
  stops_word (by decide)

theorem reads_property_none {owner name : Identifier} (howner : owner.Plain)
    (hname : name.Plain) :
    (node (.property none owner name none tag')).Reads maxSteps tag (.ofRoot negatable) := by
  have hplain : ∀ s ∈ (none : Option Identifier), s.Plain := fun _ hs => nomatch hs
  intro rest hrest
  rw [written_property _ hplain howner hname, relabel_node, Option.elim_none, List.nil_append,
    ← List.append_nil name.value.toList]
  refine howner.spells tag (stops_dot _) fun ownerToken hownerType hownerLabel => ?_
  refine .mark rfl (by decide) (by decide) nofun fun dot hdot => ?_
  refine hname.spells tag hrest.word fun nameToken hnameType hnameLabel => .nil ?_
  have hparts : ∀ part ∈ [(dot, nameToken)], part.1.type = .dot ∧ part.2.type = .identifier := by
    intro part hpart
    rw [List.mem_singleton.1 hpart]
    exact ⟨hdot, hnameType⟩
  have hunit : Derives tag .unit [ownerToken, dot, nameToken] _ :=
    .column hownerType hparts rfl
  rw [← hownerLabel, ← hnameLabel] at hunit
  exact hunit.ofUnit negatable

theorem reads_property_some {schema owner name : Identifier} (hschema : schema.Plain)
    (howner : owner.Plain) (hname : name.Plain) :
    (node (.property (some schema) owner name none tag')).Reads maxSteps tag
      (.ofRoot negatable) := by
  have hplain : ∀ s ∈ some schema, s.Plain := by
    intro s hs
    cases hs
    exact hschema
  intro rest hrest
  rw [written_property _ hplain howner hname, relabel_node, Option.elim_some, List.append_assoc,
    ← List.append_nil name.value.toList]
  refine hschema.spells tag (stops_dot _) fun schemaToken hschemaType hschemaLabel => ?_
  refine .mark rfl (by decide) (by decide) nofun fun dot hdot => ?_
  refine howner.spells tag (stops_dot _) fun ownerToken hownerType hownerLabel => ?_
  refine .mark rfl (by decide) (by decide) nofun fun dot' hdot' => ?_
  refine hname.spells tag hrest.word fun nameToken hnameType hnameLabel => .nil ?_
  have hparts : ∀ part ∈ [(dot, ownerToken), (dot', nameToken)],
      part.1.type = .dot ∧ part.2.type = .identifier := by
    intro part hpart
    rcases List.mem_cons.1 hpart with rfl | hpart
    · exact ⟨hdot, hownerType⟩
    · rw [List.mem_singleton.1 hpart]
      exact ⟨hdot', hnameType⟩
  have hunit : Derives tag .unit [schemaToken, dot, ownerToken, dot', nameToken] _ :=
    .column hschemaType hparts rfl
  rw [← hschemaLabel, ← hownerLabel, ← hnameLabel] at hunit
  exact hunit.ofUnit negatable

theorem reads_variable {sigil name : String} (hsigil : sigil ∈ ["@", "@@", ":"])
    (hname : PlainWord name) :
    (node (.variable sigil name tag')).Reads maxSteps tag (.ofRoot negatable) := by
  intro rest hrest
  rw [written_variable, relabel_node]
  have hparameter : ∀ (signs : List Token) (token : Token),
      Token.sigil? (signs.map Token.type) = some sigil → token.type = .identifier →
      token.text = name → Derives tag (.ofRoot negatable) (signs ++ [token])
        (.node (.variable sigil name tag)) := by
    rintro signs token hsigns htype rfl
    exact (Derives.parameter hsigns htype).ofUnit negatable
  have hword : Spells (.postgreSql maxSteps) name.toList rest (Token.Alone .identifier name) :=
    hname.spells hrest.word
  simp only [List.mem_cons, List.not_mem_nil, or_false] at hsigil
  rcases hsigil with rfl | rfl | rfl
  · change Spells _ ('@' :: name.toList) rest _
    refine .mark rfl (by decide) (by decide) nofun fun sign hsign => hword.mono ?_
    rintro tokens ⟨token, rfl, htype, htext⟩
    exact hparameter [sign] token (by simp [hsign, Token.sigil?]) htype htext
  · change Spells _ ('@' :: '@' :: name.toList) rest _
    refine .mark rfl (by decide) (by decide) nofun fun sign hsign => ?_
    refine .mark rfl (by decide) (by decide) nofun fun sign' hsign' => hword.mono ?_
    rintro tokens ⟨token, rfl, htype, htext⟩
    exact hparameter [sign, sign'] token (by simp [hsign, hsign', Token.sigil?]) htype htext
  · change Spells _ (':' :: name.toList) rest _
    refine .mark rfl (by decide) (by decide) nofun fun sign hsign => hword.mono ?_
    rintro tokens ⟨token, rfl, htype, htext⟩
    exact hparameter [sign] token (by simp [hsign, Token.sigil?]) htype htext

/-! ## Constants -/

theorem spells_unsigned {cs : List Char} (hcs : isUnsigned cs = true) (hrest : Delimited rest) :
    Spells (.postgreSql maxSteps) cs rest (Token.Alone .number (String.ofList cs)) := by
  cases cs with
  | nil => cases hcs
  | cons first chars =>
      simp only [isUnsigned, Bool.and_eq_true, List.all_eq_true, Bool.or_eq_true, beq_iff_eq,
        decide_eq_true_eq] at hcs
      obtain ⟨⟨hfirst, hchars⟩, hcount⟩ := hcs
      exact .number hfirst hchars hcount (hrest.stops (by decide)) (hrest.ne (by decide))

theorem sign_of_isNumeral {cs : List Char} (hcs : isNumeral cs = true) :
    isUnsigned cs = true ∨ ∃ digits, cs = '-' :: digits ∧ isUnsigned digits = true := by
  unfold isNumeral at hcs
  split at hcs
  · exact .inr ⟨_, rfl, hcs⟩
  · exact .inl hcs

theorem not_opensComment_of_isUnsigned {cs : List Char} (hcs : isUnsigned cs = true) :
    ¬OpensComment ('-' :: (cs ++ rest)) := by
  cases cs with
  | nil => cases hcs
  | cons first chars =>
      refine not_opensComment_of_ne (fun heq => nomatch (Prod.mk.inj heq).1) ?_
      rintro heq
      obtain rfl := (Prod.mk.inj heq).2
      cases hcs

theorem reads_number {value : String} (hvalue : isNumeral value.toList = true) :
    (node (.number value tag')).Reads maxSteps tag (.ofRoot negatable) := by
  intro rest hrest
  rw [written_number, relabel_node]
  rcases sign_of_isNumeral hvalue with hunsigned | ⟨digits, hdigits, hunsigned⟩
  · refine (spells_unsigned hunsigned hrest).mono ?_
    rintro tokens ⟨token, rfl, htype, htext⟩
    rw [String.ofList_toList] at htext
    have hliteral : token.literal? tag = some (.node (.number value tag)) := by
      rw [Token.literal?, htype, htext]
    exact (Derives.literal hliteral).ofUnit negatable
  · rw [hdigits]
    refine .sign rfl (not_opensComment_of_isUnsigned hunsigned) nofun fun sign hsign => ?_
    refine (spells_unsigned hunsigned hrest).mono ?_
    rintro tokens ⟨token, rfl, htype, htext⟩
    have hvalue : "-" ++ token.text = value := by
      rw [htext, ← String.toList_inj, String.toList_append, hdigits]
      exact congrArg _ String.toList_ofList
    have hoperand : Derives tag .operand [sign, token] (.node (.number ("-" ++ token.text) tag)) :=
      .negativeNumber hsign htype
    rw [hvalue] at hoperand
    exact hoperand.ofOperand negatable

theorem reads_string {value : String} (hvalue : '\r' ∉ value.toList) :
    (node (.string value false tag')).Reads maxSteps tag (.ofRoot negatable) := by
  intro rest hrest
  rw [written_string, relabel_node]
  refine (Spells.string hvalue (hrest.ne (by decide))).mono ?_
  rintro tokens ⟨token, rfl, htype, htext⟩
  rw [String.ofList_toList] at htext
  have hliteral : token.literal? tag = some (.node (.string value false tag)) := by
    rw [Token.literal?, htype, htext]
  exact (Derives.literal hliteral).ofUnit negatable

/-- The word of a truth value or null. -/
theorem spells_truth (tag : Tag) (he : e.kind = .null ∨ e.kind = .bool) (hrest : Delimited rest) :
    Spells (.postgreSql maxSteps) e.written rest fun tokens =>
      ∃ token : Token, tokens = [token] ∧ token.truth? tag = some (e.relabel (.stamp tag)) := by
  obtain ⟨n⟩ := e
  have hword : ∀ (text : String) (word : Keyword) (e : Expr),
      (text, word) ∈ Dialect.postgreSql.keywords →
      (∀ token : Token, token.type = .keyword word → token.truth? tag = some e) →
      Spells (.postgreSql maxSteps) text.toList rest fun tokens =>
        ∃ token : Token, tokens = [token] ∧ token.truth? tag = some e := by
    intro text word e hmem htruth
    refine (Spells.keyword hmem hrest.word).mono ?_
    rintro tokens ⟨token, rfl, htype, -⟩
    exact ⟨token, rfl, htruth token htype⟩
  rw [relabel_node]
  cases n with
  | null t =>
      rw [written_null]
      refine hword "NULL" .NULL _ (by decide) fun token htype => ?_
      rw [Token.truth?, htype]
      rfl
  | bool value t =>
      rw [written_bool]
      cases value with
      | true =>
          refine hword "TRUE" .TRUE _ (by decide) fun token htype => ?_
          rw [Token.truth?, htype]
          rfl
      | false =>
          refine hword "FALSE" .FALSE _ (by decide) fun token htype => ?_
          rw [Token.truth?, htype]
          rfl
  | _ => rcases he with he | he <;> cases he

theorem literal_of_truth {token : Token} (htruth : token.truth? tag = some e) :
    token.literal? tag = some e := by
  unfold Token.truth? at htruth
  unfold Token.literal? Token.truth?
  split at htruth <;> simp_all

theorem reads_truth (he : e.kind = .null ∨ e.kind = .bool) :
    e.Reads maxSteps tag (.ofRoot negatable) := by
  intro rest hrest
  refine (spells_truth tag he hrest).mono ?_
  rintro tokens ⟨token, rfl, htruth⟩
  exact (Derives.literal (literal_of_truth htruth)).ofUnit negatable

/-! ## Operators -/

/-- What stands between parentheses is read as an operand. -/
theorem ofParentheses {opening closing : Token} {all : List Token}
    (hopening : opening.type = .lparen) (hinner : Derives tag (.chain .disjunction) tokens e)
    (hclosing : closing.type = .rparen) (hall : all = opening :: (tokens ++ [closing])) :
    Derives tag (.ofRoot negatable) all e := by
  rw [hall]
  exact (Derives.parenthesized hopening hinner hclosing).ofUnit negatable

theorem reads_binary {op : BinaryOp} (his : op ≠ .is) (hisNot : op ≠ .isNot)
    (hleft : left.Reads maxSteps tag (.ofRoot op.isLogical))
    (hright : right.Reads maxSteps tag (.ofRoot op.isLogical)) :
    (node (.binary left op right tag')).Reads maxSteps tag (.ofRoot negatable) := by
  intro rest hrest
  rw [written_binary, relabel_node]
  refine .mark rfl (by decide) (by decide) nofun fun opening hopening => ?_
  refine (hleft _ (.cons (by decide))).append fun leftTokens hl => .blank ?_
  refine (BinaryOp.spells his hisNot).append fun signs hsigned => .blank ?_
  refine (hright _ (.cons (by decide))).append fun rightTokens hr => ?_
  refine .mark rfl (by decide) (by decide) nofun fun closing hclosing => .nil ?_
  have hsum := Derives.signed hsigned hl hr
  exact ofParentheses hopening hsum hclosing (by simp)

theorem reads_is {op : BinaryOp} (hop : op = .is ∨ op = .isNot)
    (hleft : left.Reads maxSteps tag (.ofRoot false))
    (hright : right.kind = .null ∨ right.kind = .bool) :
    (node (.binary left op right tag')).Reads maxSteps tag (.ofRoot negatable) := by
  have hwords : ∀ cs, op.text.toList ++ ' ' :: cs =
      "IS".toList ++ ' ' :: (writtenIf (op == .isNot) "NOT" ++ cs) := by
    rcases hop with rfl | rfl <;> exact fun _ => rfl
  intro rest hrest
  rw [written_binary, relabel_node, hwords]
  refine .mark rfl (by decide) (by decide) nofun fun opening hopening => ?_
  refine (hleft _ (.cons (by decide))).append fun leftTokens hl => .blank ?_
  refine .reserved .IS "IS" (by decide) (stops_word (by decide)) fun word hword => .blank ?_
  refine spells_writtenIf .NOT (by decide) fun negator hnot hnegated => ?_
  refine (spells_truth tag hright (.cons (by decide))).append ?_
  rintro tokens ⟨truth, rfl, htruth⟩
  refine .mark rfl (by decide) (by decide) nofun fun closing hclosing => .nil ?_
  have his := (Derives.is (Derives.single (Derives.sum hl)) hword hnot htruth).predicate_expression
  have heq : (if negator.isSome then BinaryOp.isNot else .is) = op := by
    rw [hnegated]
    rcases hop with rfl | rfl <;> rfl
  rw [heq] at his
  exact ofParentheses hopening his hclosing (by simp)

theorem reads_not (hoperand : operand.Reads maxSteps tag (.ofRoot true)) :
    (node (.not operand tag')).Reads maxSteps tag (.ofRoot true) := by
  intro rest hrest
  rw [written_not, relabel_node]
  refine .reserved .NOT "NOT" (by decide) (stops_word (by decide)) fun word hword => .blank ?_
  exact (hoperand rest hrest).mono fun tokens h => Derives.not hword h

theorem reads_negate (hoperand : operand.Reads maxSteps tag (.chain .disjunction)) :
    (node (.negate operand tag')).Reads maxSteps tag (.ofRoot negatable) := by
  intro rest hrest
  rw [written_negate, relabel_node]
  refine .sign rfl (not_opensComment_of_ne (by decide) (by decide)) nofun fun sign hsign => ?_
  refine .mark rfl (by decide) (by decide) nofun fun opening hopening => ?_
  refine (hoperand _ (.cons (by decide))).append fun tokens h => ?_
  refine .mark rfl (by decide) (by decide) nofun fun closing hclosing => .nil ?_
  have hunit := Derives.parenthesized hopening h hclosing
  have hnumber : Parser.headType (opening :: (tokens ++ [closing])) ≠ some .number := by
    change some opening.type ≠ _
    rw [hopening]
    nofun
  exact (Derives.negate hsign hnumber (.unsigned hunit)).ofOperand negatable

/-! ## Predicates -/

theorem reads_between {negated : Bool} (hoperand : operand.Reads maxSteps tag (.ofRoot false))
    (hlow : low.Reads maxSteps tag (.ofRoot false))
    (hhigh : high.Reads maxSteps tag (.ofRoot false)) :
    (node (.between operand low high negated tag')).Reads maxSteps tag (.ofRoot negatable) := by
  intro rest hrest
  rw [written_between, relabel_node]
  refine .mark rfl (by decide) (by decide) nofun fun opening hopening => ?_
  refine (hoperand.sum _ (.cons (by decide))).append fun tokens h => .blank ?_
  refine spells_writtenIf .NOT (by decide) fun negator hnot hnegated => ?_
  refine .reserved .BETWEEN "BETWEEN" (by decide) (stops_word (by decide)) fun word hword => ?_
  refine .blank ?_
  refine (hlow.sum _ (.cons (by decide))).append fun lowest hlowest => .blank ?_
  refine .reserved .AND "AND" (by decide) (stops_word (by decide)) fun conjunct hand => .blank ?_
  refine (hhigh.sum _ (.cons (by decide))).append fun highest hhighest => ?_
  refine .mark rfl (by decide) (by decide) nofun fun closing hclosing => .nil ?_
  have hbetween := Derives.between (.single h) hnot hword hlowest hand hhighest
  rw [hnegated] at hbetween
  exact ofParentheses hopening hbetween.predicate_expression hclosing (by simp)

theorem reads_membership {targets : List Expr} {negated : Bool}
    (hoperand : operand.Reads maxSteps tag (.ofRoot false)) (hne : targets ≠ [])
    (htargets : ∀ e ∈ targets, e.Reads maxSteps tag (.ofRoot false)) :
    (node (.membership operand targets none negated tag')).Reads maxSteps tag
      (.ofRoot negatable) := by
  intro rest hrest
  rw [written_membership, relabel_node]
  refine .mark rfl (by decide) (by decide) nofun fun opening hopening => ?_
  refine (hoperand.sum _ (.cons (by decide))).append fun tokens h => .blank ?_
  refine spells_writtenIf .NOT (by decide) fun negator hnot hnegated => ?_
  refine .reserved .IN "IN" (by decide) (stops_word (by decide)) fun word hword => .blank ?_
  refine .mark rfl (by decide) (by decide) nofun fun opening' hopening' => ?_
  have hlist : ∀ e ∈ targets, e.Reads maxSteps tag (.chain .sum) :=
    fun e he => (htargets e he).sum
  refine (spells_items hne hlist (.cons (by decide))).append ?_
  rintro listTokens ⟨items, rfl, hitems⟩
  refine .mark rfl (by decide) (by decide) nofun fun closing' hclosing' => ?_
  refine .mark rfl (by decide) (by decide) nofun fun closing hclosing => .nil ?_
  have hmembership := Derives.membership (.single h) hnot hword hopening' hitems.separated
    hitems.each hclosing'
  rw [hnegated, hitems.trees] at hmembership
  exact ofParentheses hopening hmembership.predicate_expression hclosing (by simp)

/-- The sign of a match with a regular expression, with a blank behind it. -/
theorem spells_regexSign (ignoresCase negated : Bool) :
    Spells (.postgreSql maxSteps) (Rendering.regexSign negated ignoresCase).toList (' ' :: rest)
      fun tokens => ∃ sign : Token, tokens = [sign] ∧
        sign.type.regexSign? = some (ignoresCase, negated) := by
  obtain ⟨type, htype, hquote, hfind⟩ : ∃ type : TokenType,
      type.regexSign? = some (ignoresCase, negated) ∧ type ≠ .doubleQuote ∧
      symbols.find? (fun entry =>
        entry.1.isPrefixOf ((Rendering.regexSign negated ignoresCase).toList ++ ' ' :: rest)) =
          some ((Rendering.regexSign negated ignoresCase).toList, type) := by
    cases ignoresCase <;> cases negated <;> exact ⟨_, rfl, by decide, rfl⟩
  have hcomment : ¬OpensComment
      ((Rendering.regexSign negated ignoresCase).toList ++ ' ' :: rest) := by
    cases ignoresCase <;> cases negated <;>
      exact not_opensComment_of_ne (by decide) (by decide)
  refine (Spells.symbol hfind hcomment hquote).mono ?_
  rintro tokens ⟨sign, rfl, hsign, -⟩
  exact ⟨sign, rfl, hsign ▸ htype⟩

theorem reads_regex {ignoresCase negated : Bool}
    (hoperand : operand.Reads maxSteps tag (.ofRoot false))
    (hpattern : pattern.Reads maxSteps tag (.ofRoot false)) :
    (node (.regex operand pattern ignoresCase negated tag')).Reads maxSteps tag
      (.ofRoot negatable) := by
  intro rest hrest
  rw [written_regex, relabel_node]
  refine .mark rfl (by decide) (by decide) nofun fun opening hopening => ?_
  refine (hoperand.sum _ (.cons (by decide))).append fun tokens h => .blank ?_
  refine (spells_regexSign ignoresCase negated).append ?_
  rintro signs ⟨sign, rfl, hsign⟩
  refine .blank ?_
  refine (hpattern.sum _ (.cons (by decide))).append fun tokens' h' => ?_
  refine .mark rfl (by decide) (by decide) nofun fun closing hclosing => .nil ?_
  have hregex := Derives.regexSign (.single h) hsign h'
  exact ofParentheses hopening hregex.predicate_expression hclosing (by simp)

/-! ## Calls, arrays and cases -/

theorem reads_array {elements : List Expr}
    (helements : ∀ e ∈ elements, e.Reads maxSteps tag (.chain .disjunction)) :
    (node (.array elements tag')).Reads maxSteps tag (.ofRoot negatable) := by
  intro rest hrest
  rw [written_array, relabel_node]
  refine .reserved .ARRAY "ARRAY" (by decide) (stops_word (by decide)) fun word hword => ?_
  refine .mark rfl (by decide) (by decide) nofun fun opening hopening => ?_
  refine (spells_optionalItems helements (.cons (by decide))).append ?_
  rintro tokens ⟨items, rfl, hitems, htrees⟩
  refine .mark rfl (by decide) (by decide) nofun fun closing hclosing => .nil ?_
  have hunit := Derives.array hword hopening (fun list hlist => (hitems list hlist).separated)
    (fun list hlist => (hitems list hlist).each) hclosing
  rw [htrees] at hunit
  exact hunit.ofUnit negatable

theorem reads_call {name : Identifier} {distinct : Bool} {arguments : List Expr}
    (hname : name.Plain)
    (harguments : ∀ e ∈ arguments, e.Reads maxSteps tag (.chain .disjunction)) :
    (node (.call ⟨[], name, distinct, arguments, none, none, tag'⟩)).Reads maxSteps tag
      (.ofRoot negatable) := by
  intro rest hrest
  rw [written_call _ hname, relabel_node]
  refine hname.spells tag (stops_word (by decide)) fun token htype hlabel => ?_
  refine .mark rfl (by decide) (by decide) nofun fun opening hopening => ?_
  refine spells_writtenIf .DISTINCT (by decide) fun word hword hdistinct => ?_
  refine (spells_optionalItems harguments (.cons (by decide))).append ?_
  rintro tokens ⟨items, rfl, hitems, htrees⟩
  refine .mark rfl (by decide) (by decide) nofun fun closing hclosing => .nil ?_
  have hunit := Derives.call htype hopening hword
    (fun list hlist => (hitems list hlist).separated)
    (fun list hlist => (hitems list hlist).each) hclosing
  rw [htrees, ← hlabel, hdistinct] at hunit
  exact hunit.ofUnit negatable

theorem reads_caseOf {operand otherwise : Option Expr} {items : List (CaseItem Expr)}
    (hoperand : ∀ e ∈ operand, e.Reads maxSteps tag (.chain .disjunction)) (hne : items ≠ [])
    (hconditions : ∀ item ∈ items, item.condition.Reads maxSteps tag (.chain .disjunction))
    (hresults : ∀ item ∈ items, item.result.Reads maxSteps tag (.chain .disjunction))
    (hotherwise : ∀ e ∈ otherwise, e.Reads maxSteps tag (.chain .disjunction)) :
    (node (.caseOf operand items otherwise tag')).Reads maxSteps tag (.ofRoot negatable) := by
  intro rest hrest
  rw [written_caseOf, relabel_node]
  have hend : Delimited (' ' :: "END".toList ++ rest) := .cons (by decide)
  have helse : Delimited (writtenOtherwise otherwise ++ ' ' :: "END".toList ++ rest) := by
    rw [List.append_assoc]
    exact delimited_otherwise hend
  have hbranches : Delimited (items.flatMap CaseItem.written ++
      (writtenOtherwise otherwise ++ ' ' :: "END".toList) ++ rest) := by
    rw [List.append_assoc]
    exact delimited_branches helse
  have hsubject : Delimited (writtenSubject operand ++ (items.flatMap CaseItem.written ++
      (writtenOtherwise otherwise ++ ' ' :: "END".toList)) ++ rest) := by
    rw [List.append_assoc]
    exact delimited_subject hbranches
  have hword : ("END", Keyword.END) ∈ Dialect.postgreSql.keywords := by decide
  refine .reserved .CASE "CASE" (by decide) hsubject.word fun word hcase => ?_
  refine (spells_subject hoperand hbranches).append ?_
  rintro tokens ⟨subject, rfl, hderives, htree⟩
  refine (spells_branches hconditions hresults helse).append ?_
  rintro tokens ⟨branches, rfl, hstands, hitems⟩
  refine (spells_otherwise hotherwise hend).append ?_
  rintro tokens ⟨other, rfl, hother, htree'⟩
  refine .blank ((Spells.keyword hword hrest.word).mono ?_)
  rintro tokens ⟨ending, rfl, hending, -⟩
  have hbranchesNe : branches ≠ [] := by
    rintro rfl
    exact hne (List.map_eq_nil_iff.1 (List.map_eq_nil_iff.1 hitems.symm))
  have hunit := Derives.caseOf hcase hderives hbranchesNe (fun b hb => (hstands b hb).worded)
    (fun b hb => (hstands b hb).condition) (fun b hb => (hstands b hb).result)
    (fun p hp => (hother p hp).1) (fun p hp => (hother p hp).2) hending
  rw [htree, hitems, htree'] at hunit
  exact hunit.ofUnit negatable

end Expr

end SqlTree
