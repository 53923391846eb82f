import SqlTree.Proofs.Derivation.Layers

/-!
# Reading operands and units

For each rule of `Derives` for operands and units: the grammar reads the phrase when it reads the
phrases in it.
-/

namespace SqlTree

open SqlTree.Parser

variable {settings : Settings} {n : Nat} {tokens rest : List Token} {e : Expr}

/-! ## Signs -/

theorem yields_plusSigns (hnext : headType rest ≠ some .plus) :
    Yields Level.plusSigns [] () rest := by
  apply Yields.loop
  apply Yields.ends_done
  exact .pass hnext .pure

theorem yields_suffixes (hrest : EndsBefore Layer.operand.limit rest) :
    Yields (loop (settings.level n).suffix e) [] e rest := by
  apply Yields.loop
  apply Yields.ends_done
  exact ⟨fun behind depth => Level.suffix_stop (hrest.continuesOperand behind depth)⟩

theorem Accepted.unsigned (h : Accepted settings (n + 1) .unit tokens e)
    (hbegins : Begins .unit tokens) : Accepted settings (n + 1) .operand tokens e := by
  intro rest hrest
  have hplus : headType (tokens ++ rest) ≠ some .plus := hbegins.headType_ne rest rfl (by decide)
  have hdash : headType (tokens ++ rest) ≠ some .dash := hbegins.headType_ne rest rfl (by decide)
  have hoperand : Yields (settings.level n).operand tokens e rest := by
    refine (yields_plusSigns hplus).bind ?_
    exact .pass hdash ((h rest hrest).andThen (yields_suffixes hrest))
  exact hoperand.nested

theorem Accepted.negate {sign : Token} (h : Accepted settings n .operand tokens e)
    (hsign : sign.type = .dash) (hbegins : Begins .operand tokens)
    (hnumber : headType tokens ≠ some .number) :
    Accepted settings (n + 1) .operand (sign :: tokens) (.node (.negate e settings.tag)) := by
  intro rest hrest
  have hnext : headType (tokens ++ rest) ≠ some .number := by
    cases hbegins with
    | token => exact hnumber
    | opening => exact hnumber
  have hoperand : Yields (settings.level n).operand (sign :: tokens)
      (.node (.negate e settings.tag)) rest := by
    have hplus : Yields Level.plusSigns [] () (sign :: tokens ++ rest) :=
      yields_plusSigns (headType_ne_of_eq hsign (by decide) _)
    refine hplus.bind (.accept hsign ?_)
    exact .test false (fun _ _ => beq_false_of_ne hnext) ((h rest hrest).andThen .pure)
  exact hoperand.nested

theorem accepted_negativeNumber {sign number : Token} (hsign : sign.type = .dash)
    (hnumber : number.type = .number) :
    Accepted settings (n + 1) .operand [sign, number]
      (.node (.number ("-" ++ number.text) settings.tag)) := by
  intro rest hrest
  have hoperand : Yields (settings.level n).operand [sign, number]
      (.node (.number ("-" ++ number.text) settings.tag)) rest := by
    have hplus : Yields Level.plusSigns [] () ([sign, number] ++ rest) :=
      yields_plusSigns (headType_ne_of_eq hsign (by decide) _)
    refine hplus.bind (.accept hsign ?_)
    refine .test true (fun _ _ => ?_) (.take .pure)
    exact beq_iff_eq.2 (congrArg some hnumber)
  exact hoperand.nested

/-! ## Literals -/

theorem accepted_literal {token : Token} (htoken : token.literal? settings.tag = some e) :
    Accepted settings n .unit [token] e := by
  intro rest _
  refine .peekType ?_
  have hnext : headType ([token] ++ rest) = some token.type := rfl
  rw [hnext]
  rcases Token.literal?_eq_some htoken with ⟨htype, rfl⟩ | ⟨htype, rfl⟩ | ⟨htype, rfl⟩ | htruth
  · rw [htype]
    exact .take .pure
  · rw [htype]
    exact .take .pure
  · rw [htype]
    exact .take .pure
  · rcases Token.truth?_eq_some htruth with ⟨htype, rfl⟩ | ⟨htype, rfl⟩ | ⟨htype, rfl⟩
    all_goals
      rw [htype]
      exact .take .pure

/-! ## Names -/

section Names

variable {g : Level} {name : Token}

theorem yields_namePart (hname : name.type = .identifier) :
    Yields g.namePart [name] (name.plainName g.tag) rest := by
  have hidentifier : g.identifierOf name = name.plainName g.tag := by
    rw [Level.identifierOf, hname]
    rfl
  rw [← hidentifier]
  refine .test true (fun behind depth => ?_) (.take .pure)
  simp [Cursor.isNamePart, Cursor.startsName, Cursor.nextType, hname, TokenType.isName]

def NamePath.extend (tag : Tag) (path : NamePath) (parts : List (Token × Token)) : NamePath :=
  parts.foldl (fun path part => path.push (part.2.plainName tag)) path

theorem yields_starPath {parts : List (Token × Token)} (hname : name.type = .identifier)
    (hparts : ∀ part ∈ parts, part.1.type = .dot ∧ part.2.type = .identifier)
    (hrest : headType rest ≠ some .dot) :
    Yields g.starPath (name :: parts.flatMap fun part => [part.1, part.2])
      (NamePath.extend g.tag ⟨name.plainName g.tag, []⟩ parts, false) rest := by
  refine (yields_namePart hname).bind (.loop ?_)
  generalize NamePath.mk (name.plainName g.tag) [] = path
  induction parts generalizing path with
  | nil =>
      apply Yields.ends_done
      exact .pass hrest .pure
  | cons part parts ih =>
      obtain ⟨dot, next⟩ := part
      obtain ⟨hdot, hnext⟩ := hparts _ (List.mem_cons_self ..)
      have hpart : Yields g.namePart [next] (next.plainName g.tag)
          (parts.flatMap (fun part => [part.1, part.2]) ++ rest) := yields_namePart hnext
      have hmore := ih (fun part hpart => hparts part (List.mem_cons_of_mem _ hpart))
        (path.push (next.plainName g.tag))
      have hstar : headType ([next] ++ (parts.flatMap (fun part => [part.1, part.2]) ++ rest)) ≠
          some .star := headType_ne_of_eq hnext (by decide) _
      exact Yields.ends_again (.accept hdot (.pass hstar (hpart.andThen .pure))) hmore

/-- A path of one part. -/
theorem yields_singlePath (hname : name.type = .identifier) (hrest : headType rest ≠ some .dot) :
    Yields g.starPath [name] (⟨name.plainName g.tag, []⟩, false) rest := by
  have hnone : ∀ part ∈ ([] : List (Token × Token)),
      part.1.type = .dot ∧ part.2.type = .identifier :=
    fun _ hnone => absurd hnone List.not_mem_nil
  have hpath : Yields g.starPath
      (name :: ([] : List (Token × Token)).flatMap fun part => [part.1, part.2])
      (NamePath.extend g.tag ⟨name.plainName g.tag, []⟩ [], false) rest :=
    yields_starPath hname hnone hrest
  exact hpath

theorem yields_column {parts : List (Token × Token)}
    (hcolumn : Token.column? g.tag (name :: parts.map Prod.snd) = some e) :
    Yields (g.column (NamePath.extend g.tag ⟨name.plainName g.tag, []⟩ parts)) [] e rest := by
  match parts with
  | [] =>
      cases hcolumn
      exact .pure
  | [_] =>
      cases hcolumn
      exact .pure
  | [_, _] =>
      cases hcolumn
      exact .pure
  | _ :: _ :: _ :: _ => cases hcolumn

theorem accepted_column {parts : List (Token × Token)} (hname : name.type = .identifier)
    (hparts : ∀ part ∈ parts, part.1.type = .dot ∧ part.2.type = .identifier)
    (hcolumn : Token.column? settings.tag (name :: parts.map Prod.snd) = some e) :
    Accepted settings n .unit (name :: parts.flatMap fun part => [part.1, part.2]) e := by
  intro rest hrest
  refine .peekType ?_
  have hnext : headType (name :: parts.flatMap (fun part => [part.1, part.2]) ++ rest) =
      some .identifier := congrArg some hname
  rw [hnext]
  have hdot : headType rest ≠ some .dot := hrest.headType_ne nofun
  have hparen : headType rest ≠ some .lparen := hrest.headType_ne nofun
  refine (yields_starPath hname hparts hdot).andThen ?_
  exact .test false (fun _ _ => beq_false_of_ne hparen) (yields_column hcolumn)

end Names

/-! ## Variables -/

theorem yields_sigil {sign name : Token} {more : List Token} {sigil : String}
    (hsigns : Token.sigil? ((sign :: more).map Token.type) = some sigil)
    (hname : name.type = .identifier) :
    Yields (Level.sigil sign.type) more sigil (name :: rest) := by
  rw [List.map_cons] at hsigns
  generalize sign.type = type at hsigns ⊢
  rcases Token.sigil?_eq_some hsigns with ⟨htypes, rfl⟩ | ⟨htypes, rfl⟩ | ⟨htypes, rfl⟩
  · obtain ⟨rfl, hmore⟩ := List.cons.inj htypes
    rw [List.map_eq_nil_iff.1 hmore]
    exact .pass (headType_ne_of_eq hname (by decide) rest) .pure
  · obtain ⟨rfl, hmore⟩ := List.cons.inj htypes
    obtain ⟨sign', rest', rfl, hsign', hnil⟩ := List.map_eq_cons_iff.1 hmore
    rw [List.map_eq_nil_iff.1 hnil]
    exact .accept hsign' .pure
  · obtain ⟨rfl, hmore⟩ := List.cons.inj htypes
    rw [List.map_eq_nil_iff.1 hmore]
    exact .pure

theorem accepted_parameter {signs : List Token} {name : Token} {sigil : String}
    (hsigns : Token.sigil? (signs.map Token.type) = some sigil) (hname : name.type = .identifier) :
    Accepted settings n .unit (signs ++ [name])
      (.node (.variable sigil name.text settings.tag)) := by
  intro rest _
  cases signs with
  | nil => cases hsigns
  | cons sign more =>
      have hvariable : Yields (settings.level (n - 1)).variableName (sign :: more ++ [name])
          (.node (.variable sigil name.text settings.tag)) rest := by
        refine .take ?_
        refine (yields_sigil hsigns hname).bind ?_
        refine .test true (fun _ _ => ?_) (.take .pure)
        simp [Cursor.isWordOr, Cursor.nextType, hname, TokenType.isWord]
      refine .peekType ?_
      have hnext : headType (sign :: more ++ [name] ++ rest) = some sign.type := rfl
      rw [hnext]
      rw [List.map_cons] at hsigns
      generalize sign.type = type at hsigns ⊢
      rcases Token.sigil?_eq_some hsigns with ⟨htypes, -⟩ | ⟨htypes, -⟩ | ⟨htypes, -⟩
      all_goals
        rw [(List.cons.inj htypes).1]
        exact hvariable

/-! ## Lists in brackets -/

theorem endsBefore_closing {type : TokenType} {closing : Token} {limit : Nat}
    (hclosing : closing.type = type) (htype : type = .rparen ∨ type = .rbracket)
    (hlimit : 0 < limit) : EndsBefore limit (closing :: rest) := by
  have hbinding : closing.type.binding? = some 0 := by
    rcases htype with rfl | rfl <;> rw [hclosing] <;> rfl
  refine follows_of_binding hbinding hlimit fun word hword => ?_
  rw [hclosing] at hword
  rcases htype with rfl | rfl <;> cases hword

/-- A list that may be missing, before the token that closes it. -/
theorem yields_listBefore {construct : Construct} {type : TokenType} {closing : Token}
    {items : Option Items}
    (hitems : ∀ list ∈ items, ∀ p ∈ list.phrases,
      Accepted settings n (.chain .disjunction) p.tokens p.tree)
    (hbegins : ∀ list ∈ items, Begins (.chain .disjunction) list.first.tokens)
    (hcommas : ∀ list ∈ items, list.Separated)
    (hcount : ∀ list ∈ items, list.further.length < settings.maxIterations)
    (hclosing : closing.type = type) (htype : type = .rparen ∨ type = .rbracket) :
    Yields (Level.listBefore type
        ((settings.level n).commaList construct (settings.level n).expression))
      (items.elim [] Items.tokens) (items.elim [] Items.trees) (closing :: rest) := by
  cases items with
  | none =>
      refine .test true (fun _ _ => ?_) .pure
      exact beq_iff_eq.2 (congrArg some hclosing)
  | some list =>
      have hother : (Layer.chain .disjunction).begins type = false ∧ type ≠ .lparen ∧
          type ≠ .comma := by
        rcases htype with rfl | rfl <;> decide
      have hnext : headType (list.tokens ++ closing :: rest) ≠ some type :=
        ((hbegins list rfl).append _).headType_ne _ hother.1 hother.2.1
      have hlist : Yields ((settings.level n).commaList construct (settings.level n).expression)
          list.tokens list.trees (closing :: rest) :=
        yields_commaList (by decide) (fun p hp => (hitems list rfl p hp).expression)
          (hcommas list rfl) (hcount list rfl) (endsBefore_closing hclosing htype (by decide))
          (headType_ne_of_eq hclosing hother.2.2 rest)
      exact .test false (fun _ _ => beq_false_of_ne hnext) hlist

theorem accepted_array {word opening closing : Token} {elements : Option Items}
    (hword : word.type = .keyword .ARRAY) (hopening : opening.type = .lbracket)
    (hitems : ∀ list ∈ elements, ∀ p ∈ list.phrases,
      Accepted settings n (.chain .disjunction) p.tokens p.tree)
    (hbegins : ∀ list ∈ elements, Begins (.chain .disjunction) list.first.tokens)
    (hcommas : ∀ list ∈ elements, list.Separated)
    (hcount : ∀ list ∈ elements, list.further.length < settings.maxIterations)
    (hclosing : closing.type = .rbracket) :
    Accepted settings (n + 1) .unit
      (word :: opening :: (elements.elim [] Items.tokens ++ [closing]))
      (.node (.array (elements.elim [] Items.trees) settings.tag)) := by
  intro rest _
  have hlist : Yields (Level.listBefore .rbracket
        ((settings.level n).commaList .array (settings.level n).expression))
      (elements.elim [] Items.tokens) (elements.elim [] Items.trees) (closing :: rest) :=
    yields_listBefore hitems hbegins hcommas hcount hclosing (.inr rfl)
  have harray : Yields (settings.level n).array
      (opening :: (elements.elim [] Items.tokens ++ [closing]))
      (.node (.array (elements.elim [] Items.trees) settings.tag)) rest :=
    .expect hopening (hlist.bind (.expect hclosing .pure))
  have hunit : Yields ((settings.level n).keywordUnit .ARRAY)
      (word :: opening :: (elements.elim [] Items.tokens ++ [closing]))
      (.node (.array (elements.elim [] Items.trees) settings.tag)) rest := by
    refine .test true (fun _ _ => ?_) (.take harray)
    exact beq_iff_eq.2 (congrArg some hopening)
  refine .peekType ?_
  have hnext : headType (word :: opening :: (elements.elim [] Items.tokens ++ [closing]) ++ rest) =
      some (.keyword .ARRAY) := congrArg some hword
  rw [hnext]
  exact hunit

/-! ## Calls -/

theorem yields_withinGroup {limit : Nat} (hrest : EndsBefore limit rest) :
    Yields (settings.level n).withinGroup [] none rest := by
  refine .test false (fun behind depth => ?_) .pure
  cases rest with
  | nil => rfl
  | cons token rest =>
      have hthis : token.isThisWord "WITHIN" = false :=
        (endsBefore_cons.1 hrest).isThisWord Dialect.keyword?_within
      exact Bool.and_eq_false_imp.2 fun htrue => absurd htrue (Bool.eq_false_iff.1 hthis)

theorem yields_afterKeyword_none {α : Type} {word : Keyword} {p : Parser α}
    (hnext : headType rest ≠ some (.keyword word)) : Yields (afterKeyword word p) [] none rest :=
  .pass hnext .pure

/-- Reads whether `DISTINCT` stands before the arguments. -/
theorem yields_distinct {distinct : Option Token} {more : List Token}
    (hdistinct : Token.OptionallyOf (.keyword .DISTINCT) distinct)
    (hmore : headType more ≠ some (.keyword .DISTINCT)) :
    Yields (acceptKeyword .DISTINCT) distinct.toList distinct.isSome more := by
  cases distinct with
  | none => exact ⟨fun _ _ => accept_of_not_next hmore⟩
  | some token => exact ⟨fun _ _ => accept_of_next (congrArg some (hdistinct token rfl))⟩

theorem yields_call (name : Token) {opening closing : Token} {distinct : Option Token}
    {arguments : Option Items} (hopening : opening.type = .lparen)
    (hdistinct : Token.OptionallyOf (.keyword .DISTINCT) distinct)
    (hitems : ∀ list ∈ arguments, ∀ p ∈ list.phrases,
      Accepted settings n (.chain .disjunction) p.tokens p.tree)
    (hbegins : ∀ list ∈ arguments, Begins (.chain .disjunction) list.first.tokens)
    (hcommas : ∀ list ∈ arguments, list.Separated)
    (hcount : ∀ list ∈ arguments, list.further.length < settings.maxIterations)
    (hclosing : closing.type = .rparen) (hrest : EndsBefore Layer.unit.limit rest) :
    Yields ((settings.level n).call ⟨name.plainName settings.tag, []⟩)
      (opening :: (distinct.toList ++ (arguments.elim [] Items.tokens ++ [closing])))
      ⟨[], name.plainName settings.tag, distinct.isSome, arguments.elim [] Items.trees, none, none,
        settings.tag⟩ rest := by
  have hnext : headType ((arguments.elim [] Items.tokens ++ [closing]) ++ rest) ≠
      some (.keyword .DISTINCT) := by
    cases arguments with
    | none => exact headType_ne_of_eq hclosing (by decide) rest
    | some list =>
        exact (((hbegins list rfl).append _).append _).headType_ne _ rfl (by decide)
  have hlist : Yields (Level.listBefore .rparen
        ((settings.level n).commaList .arguments (settings.level n).expression))
      (arguments.elim [] Items.tokens) (arguments.elim [] Items.trees) (closing :: rest) :=
    yields_listBefore hitems hbegins hcommas hcount hclosing (.inl rfl)
  have hover : headType rest ≠ some (.keyword .OVER) := hrest.headType_ne nofun
  refine .expect hopening ?_
  refine (yields_distinct hdistinct hnext).bind ?_
  refine hlist.bind ?_
  refine .expect hclosing ?_
  refine (yields_withinGroup hrest).andThen ?_
  exact (yields_afterKeyword_none hover).andThen .pure

theorem accepted_call {name opening closing : Token} {distinct : Option Token}
    {arguments : Option Items} (hname : name.type = .identifier) (hopening : opening.type = .lparen)
    (hdistinct : Token.OptionallyOf (.keyword .DISTINCT) distinct)
    (hitems : ∀ list ∈ arguments, ∀ p ∈ list.phrases,
      Accepted settings n (.chain .disjunction) p.tokens p.tree)
    (hbegins : ∀ list ∈ arguments, Begins (.chain .disjunction) list.first.tokens)
    (hcommas : ∀ list ∈ arguments, list.Separated)
    (hcount : ∀ list ∈ arguments, list.further.length < settings.maxIterations)
    (hclosing : closing.type = .rparen) :
    Accepted settings (n + 1) .unit
      (name :: opening :: (distinct.toList ++ (arguments.elim [] Items.tokens ++ [closing])))
      (.node (.call ⟨[], name.plainName settings.tag, distinct.isSome,
        arguments.elim [] Items.trees, none, none, settings.tag⟩)) := by
  intro rest hrest
  have hpath : Yields (settings.level n).starPath [name] (⟨name.plainName settings.tag, []⟩, false)
      (opening :: (distinct.toList ++ (arguments.elim [] Items.tokens ++ [closing])) ++ rest) :=
    yields_singlePath hname (headType_ne_of_eq hopening (by decide) _)
  have hcall := yields_call name hopening hdistinct hitems hbegins hcommas hcount hclosing hrest
  have hnamed : Yields (settings.level n).named
      (name :: opening :: (distinct.toList ++ (arguments.elim [] Items.tokens ++ [closing])))
      (.node (.call ⟨[], name.plainName settings.tag, distinct.isSome,
        arguments.elim [] Items.trees, none, none, settings.tag⟩)) rest := by
    refine hpath.bind ?_
    refine .test true (fun _ _ => ?_) ?_
    · exact beq_iff_eq.2 (congrArg some hopening)
    · exact hcall.andThen .pure
  refine .peekType ?_
  have hnext : headType (name ::
      opening :: (distinct.toList ++ (arguments.elim [] Items.tokens ++ [closing])) ++ rest) =
      some .identifier := congrArg some hname
  rw [hnext]
  exact hnamed

/-! ## `CASE` -/

/-- Keywords that end whatever stands before them. -/
theorem endsBefore_keyword {word : Keyword} {token : Token} {limit : Nat}
    (htype : token.type = .keyword word)
    (hbinding : (TokenType.keyword word).binding? = some 0) (hlimit : 0 < limit)
    (hspelled : token.Spelled) : EndsBefore limit (token :: rest) :=
  follows_of_binding (htype ▸ hbinding) hlimit hspelled

theorem endsBefore_branches {branches : List Branch} {limit : Nat} (hlimit : 0 < limit)
    (hwords : ∀ b ∈ branches, b.Worded) (hspelled : ∀ b ∈ branches, ∀ t ∈ b.tokens, t.Spelled)
    (hrest : EndsBefore limit rest) :
    EndsBefore limit (branches.flatMap Branch.tokens ++ rest) := by
  cases branches with
  | nil => exact hrest
  | cons b branches =>
      obtain ⟨hwhen, -⟩ := hwords b (List.mem_cons_self ..)
      have hthis := hspelled b (List.mem_cons_self ..) b.whenWord (List.mem_cons_self ..)
      exact endsBefore_keyword hwhen rfl hlimit hthis

theorem yields_caseItemsFrom {branches : List Branch} {left : Nat} {done : List (CaseItem Expr)}
    (hwords : ∀ b ∈ branches, b.Worded) (hspelled : ∀ b ∈ branches, ∀ t ∈ b.tokens, t.Spelled)
    (hconditions : ∀ b ∈ branches,
      Accepted settings n (.chain .disjunction) b.condition.tokens b.condition.tree)
    (hresults : ∀ b ∈ branches,
      Accepted settings n (.chain .disjunction) b.result.tokens b.result.tree)
    (hcount : branches.length ≤ left) (hrest : EndsBefore (Layer.chain .disjunction).limit rest)
    (hend : headType rest ≠ some (.keyword .WHEN)) :
    Yields ((settings.level n).caseItemsFrom left done) (branches.flatMap Branch.tokens)
      (done.reverse ++ branches.map (Branch.item settings.tag)) rest := by
  induction branches generalizing left done with
  | nil =>
      rw [Level.caseItemsFrom, List.map_nil, List.append_nil]
      exact .pass hend .pure
  | cons b branches ih =>
      obtain ⟨left, rfl⟩ := Nat.exists_eq_add_one.2 (Nat.zero_lt_of_lt hcount)
      obtain ⟨hwhen, hthen⟩ := hwords b (List.mem_cons_self ..)
      have hwordsMore : ∀ b ∈ branches, b.Worded := fun b hb => hwords b (List.mem_cons_of_mem _ hb)
      have hspelledMore : ∀ b ∈ branches, ∀ t ∈ b.tokens, t.Spelled :=
        fun b hb => hspelled b (List.mem_cons_of_mem _ hb)
      have hmore : Yields
          ((settings.level n).caseItemsFrom left (Branch.item settings.tag b :: done))
          (branches.flatMap Branch.tokens)
          ((Branch.item settings.tag b :: done).reverse ++ branches.map (Branch.item settings.tag))
          rest :=
        ih hwordsMore hspelledMore (fun b hb => hconditions b (List.mem_cons_of_mem _ hb))
          (fun b hb => hresults b (List.mem_cons_of_mem _ hb)) (Nat.le_of_succ_le_succ hcount)
      rw [List.reverse_cons, List.append_assoc] at hmore
      have hcondition := (hconditions b (List.mem_cons_self ..)).expression
      have hresult := (hresults b (List.mem_cons_self ..)).expression
      have hthenSpelled : b.thenWord.Spelled :=
        hspelled b (List.mem_cons_self ..) b.thenWord (by simp [Branch.tokens])
      have hafterResult : EndsBefore (Layer.chain .disjunction).limit
          (branches.flatMap Branch.tokens ++ rest) :=
        endsBefore_branches (by decide) hwordsMore hspelledMore hrest
      rw [List.flatMap_cons, Branch.tokens, List.cons_append, List.append_assoc,
        Level.caseItemsFrom]
      refine .accept hwhen ?_
      refine (hcondition _ (endsBefore_keyword hthen rfl (by decide) hthenSpelled)).bind ?_
      refine .expect hthen ?_
      exact (hresult _ hafterResult).bind hmore

theorem yields_caseOperand {operand : Option Phrase} {more : List Token}
    (hoperand : ∀ p ∈ operand, Accepted settings n (.chain .disjunction) p.tokens p.tree)
    (hbegins : ∀ p ∈ operand, Begins (.chain .disjunction) p.tokens)
    (hnext : headType more = some (.keyword .WHEN))
    (hmore : EndsBefore (Layer.chain .disjunction).limit more) :
    Yields (settings.level n).caseOperand (operand.elim [] Phrase.tokens)
      (operand.map Phrase.tree) more := by
  cases operand with
  | none =>
      refine .test true (fun behind depth => ?_) .pure
      have hthis : Cursor.nextType ⟨behind, more, depth⟩ = some (.keyword .WHEN) := hnext
      rw [Level.lacksOperand, Option.elim_none, List.nil_append, hthis]
  | some p =>
      refine .test false (fun behind depth => ?_) ((hoperand p rfl).expression more hmore).map
      have hother : ∀ word, (Layer.chain .disjunction).begins (.keyword word) = false →
          Cursor.nextType ⟨behind, p.tokens ++ more, depth⟩ ≠ some (.keyword word) :=
        fun word hword => (hbegins p rfl).headType_ne more hword nofun
      unfold Level.lacksOperand
      split
      case h_1 htype => exact absurd htype (hother .WHEN rfl)
      case h_2 htype => exact absurd htype (hother .ELSE rfl)
      case h_3 htype => exact absurd htype (hother .END rfl)
      case h_4 => rfl

theorem yields_otherwise {otherwise : Option (Token × Phrase)} {more : List Token}
    (helse : ∀ other ∈ otherwise, other.1.type = .keyword .ELSE)
    (hdefault : ∀ other ∈ otherwise,
      Accepted settings n (.chain .disjunction) other.2.tokens other.2.tree)
    (hnext : headType more ≠ some (.keyword .ELSE))
    (hmore : EndsBefore (Layer.chain .disjunction).limit more) :
    Yields (afterKeyword .ELSE (settings.level n).expression)
      (Phrase.behindWord otherwise) (otherwise.map fun other => other.2.tree) more := by
  cases otherwise with
  | none => exact yields_afterKeyword_none hnext
  | some other =>
      exact .accept (helse other rfl) ((hdefault other rfl).expression more hmore).map

/-- What stands behind the branches is `ELSE` or `END`, so that no branch goes on with it. -/
theorem endsBefore_otherwise {otherwise : Option (Token × Phrase)} {ending : Token}
    (helse : ∀ other ∈ otherwise, other.1.type = .keyword .ELSE)
    (hspelledElse : ∀ other ∈ otherwise, other.1.Spelled) (hending : ending.type = .keyword .END)
    (hspelledEnd : ending.Spelled) (rest : List Token) :
    headType ((Phrase.behindWord otherwise ++ [ending]) ++ rest) ≠ some (.keyword .WHEN) ∧
      EndsBefore (Layer.chain .disjunction).limit
        ((Phrase.behindWord otherwise ++ [ending]) ++ rest) := by
  cases otherwise with
  | none =>
      constructor
      · exact headType_ne_of_eq hending (by decide) rest
      · exact endsBefore_keyword hending rfl (by decide) hspelledEnd
  | some other =>
      have hthis := helse other rfl
      constructor
      · exact headType_ne_of_eq hthis (by decide) _
      · exact endsBefore_keyword hthis rfl (by decide) (hspelledElse other rfl)

theorem accepted_caseOf {word ending : Token} {operand : Option Phrase} {branches : List Branch}
    {otherwise : Option (Token × Phrase)} (hword : word.type = .keyword .CASE)
    (hoperand : ∀ p ∈ operand, Accepted settings n (.chain .disjunction) p.tokens p.tree)
    (hbegins : ∀ p ∈ operand, Begins (.chain .disjunction) p.tokens)
    (hbranches : branches ≠ []) (hwords : ∀ b ∈ branches, b.Worded)
    (hconditions : ∀ b ∈ branches,
      Accepted settings n (.chain .disjunction) b.condition.tokens b.condition.tree)
    (hresults : ∀ b ∈ branches,
      Accepted settings n (.chain .disjunction) b.result.tokens b.result.tree)
    (helse : ∀ other ∈ otherwise, other.1.type = .keyword .ELSE)
    (hdefault : ∀ other ∈ otherwise,
      Accepted settings n (.chain .disjunction) other.2.tokens other.2.tree)
    (hending : ending.type = .keyword .END) (hcount : branches.length ≤ settings.maxIterations)
    (hspelledBranches : ∀ b ∈ branches, ∀ t ∈ b.tokens, t.Spelled)
    (hspelledElse : ∀ other ∈ otherwise, other.1.Spelled) (hspelledEnd : ending.Spelled) :
    Accepted settings (n + 1) .unit
      (word :: (operand.elim [] Phrase.tokens ++
        (branches.flatMap Branch.tokens ++ (Phrase.behindWord otherwise ++ [ending]))))
      (.node (.caseOf (operand.map Phrase.tree) (branches.map (Branch.item settings.tag))
        (otherwise.map fun other => other.2.tree) settings.tag)) := by
  intro rest _
  have hendRest : EndsBefore (Layer.chain .disjunction).limit (ending :: rest) :=
    endsBefore_keyword hending rfl (by decide) hspelledEnd
  have helseEnd : headType (ending :: rest) ≠ some (.keyword .ELSE) :=
    headType_ne_of_eq hending (by decide) rest
  have hotherwise : Yields (afterKeyword .ELSE (settings.level n).expression)
      (Phrase.behindWord otherwise) (otherwise.map fun other => other.2.tree) (ending :: rest) :=
    yields_otherwise helse hdefault helseEnd hendRest
  obtain ⟨hwhenTail, hendTail⟩ :=
    endsBefore_otherwise helse hspelledElse hending hspelledEnd rest
  have hitems : Yields ((settings.level n).caseItemsFrom settings.maxIterations [])
      (branches.flatMap Branch.tokens) (branches.map (Branch.item settings.tag))
      ((Phrase.behindWord otherwise ++ [ending]) ++ rest) :=
    yields_caseItemsFrom hwords hspelledBranches hconditions hresults hcount hendTail hwhenTail
  have hsubject : Yields (settings.level n).caseOperand (operand.elim [] Phrase.tokens)
      (operand.map Phrase.tree)
      ((branches.flatMap Branch.tokens ++ (Phrase.behindWord otherwise ++ [ending])) ++ rest) := by
    rw [List.append_assoc]
    refine yields_caseOperand hoperand hbegins ?_
      (endsBefore_branches (by decide) hwords hspelledBranches hendTail)
    obtain ⟨b, branches, rfl⟩ := List.exists_cons_of_ne_nil hbranches
    exact congrArg some (hwords b (List.mem_cons_self ..)).1
  have hnonempty : (branches.map (Branch.item settings.tag)).isEmpty = false := by
    cases branches with
    | nil => exact absurd rfl hbranches
    | cons b branches => rfl
  have hcase : Yields (settings.level n).caseOf
      (operand.elim [] Phrase.tokens ++
        (branches.flatMap Branch.tokens ++ (Phrase.behindWord otherwise ++ [ending])))
      (.node (.caseOf (operand.map Phrase.tree) (branches.map (Branch.item settings.tag))
        (otherwise.map fun other => other.2.tree) settings.tag)) rest := by
    refine hsubject.bind ?_
    refine hitems.bind ?_
    rw [hnonempty, if_neg Bool.false_ne_true]
    refine hotherwise.bind ?_
    exact .expect hending .pure
  refine .peekType ?_
  have hnext : headType (word :: (operand.elim [] Phrase.tokens ++
      (branches.flatMap Branch.tokens ++ (Phrase.behindWord otherwise ++ [ending]))) ++ rest) =
      some (.keyword .CASE) := congrArg some hword
  rw [hnext]
  exact .take hcase

/-! ## Parentheses -/

theorem accepted_parenthesized {opening closing : Token} (hopening : opening.type = .lparen)
    (h : Accepted settings n (.chain .disjunction) tokens e)
    (hbegins : Begins (.chain .disjunction) tokens) (hclosing : closing.type = .rparen) :
    Accepted settings (n + 1) .unit (opening :: (tokens ++ [closing])) e := by
  intro rest _
  have hend : EndsBefore (Layer.chain .disjunction).limit (closing :: rest) :=
    endsBefore_closing hclosing (.inl rfl) (by decide)
  have hinner : Yields (settings.level n).expression tokens e (closing :: rest) :=
    h.expression _ hend
  have hparenthesized : Yields (settings.level n).parenthesized (opening :: (tokens ++ [closing])) e
      rest := by
    refine .expect hopening ?_
    refine .test false (fun _ _ => ((hbegins.append _).append _).startsQuery) ?_
    refine hinner.bind ?_
    exact .expect hclosing .pure
  refine .peekType ?_
  have hnext : headType (opening :: (tokens ++ [closing]) ++ rest) = some .lparen :=
    congrArg some hopening
  rw [hnext]
  exact hparenthesized

end SqlTree
