import SqlTree.Proofs.Derivation.Acceptance
import SqlTree.Proofs.Rereading.Node
import SqlTree.Proofs.Stamping
import SqlTree.Token.Escape

/-!
# Reading back what was written

A tree that is written is read back as itself, from its characters to the tree.  The lexer gives its
tokens, the pass over them lifts nothing out and fuses nothing, and the grammar takes all of them.
Main statement: `Settings.expression_of_render`.
-/

namespace SqlTree

open Text Lexer

/-! ## All trees -/

namespace Expr

variable {maxSteps : Nat} {tag : Tag} {negatable : Bool} {e : Expr}

/-- By induction on the tree, each kind of node from what its children are read as. -/
theorem Rereadable.reads (h : e.Rereadable negatable) :
    e.Reads maxSteps tag (.ofRoot negatable) := by
  induction h with
  | identifier hname => exact reads_identifier hname
  | @property _ schema _ _ _ hschema howner hname =>
      cases schema with
      | none => exact reads_property_none howner hname
      | some s => exact reads_property_some (hschema s rfl) howner hname
  | «variable» hsigil hname => exact reads_variable hsigil hname
  | number hvalue => exact reads_number hvalue
  | string hvalue => exact reads_string hvalue
  | bool => exact reads_truth (.inr rfl)
  | null => exact reads_truth (.inl rfl)
  | logical hop _ _ ihLeft ihRight =>
      rw [← hop] at ihLeft ihRight
      have his : BinaryOp.is.isLogical = false := rfl
      have hisNot : BinaryOp.isNot.isLogical = false := rfl
      refine reads_binary ?_ ?_ ihLeft ihRight
      · rintro rfl
        exact Bool.false_ne_true (his.symm.trans hop)
      · rintro rfl
        exact Bool.false_ne_true (hisNot.symm.trans hop)
  | truth hop _ hright ih => exact reads_is hop ih hright
  | binary hop his hisNot _ _ ihLeft ihRight =>
      rw [← hop] at ihLeft ihRight
      exact reads_binary his hisNot ihLeft ihRight
  | not _ ih => exact reads_not ih
  | negate _ ih => exact reads_negate ih.expression
  | between _ _ _ ih ihLow ihHigh => exact reads_between ih ihLow ihHigh
  | membership _ hne _ ih ihTargets => exact reads_membership ih hne ihTargets
  | regex _ _ ih ihPattern => exact reads_regex ih ihPattern
  | caseOf _ hne _ _ _ ihOperand ihConditions ihResults ihOtherwise =>
      refine reads_caseOf (fun e he => (ihOperand e he).expression) hne ?_ ?_ ?_
      · exact fun item hitem => (ihConditions item hitem).expression
      · exact fun item hitem => (ihResults item hitem).expression
      · exact fun e he => (ihOtherwise e he).expression
  | call hname _ ih => exact reads_call hname fun e he => (ih e he).expression
  | array _ ih => exact reads_array fun e he => (ih e he).expression

end Expr

/-! ## From the characters to the tree -/

/-- The pass over the tokens lets usual ones through. -/
theorem Escape.run_of_usual {pass : Pass} {tokens : List Token}
    (htokens : ∀ token ∈ tokens, token.type.isComment = false ∧ token.type ≠ pass.leftType) :
    pass.run tokens = .ok ⟨tokens, []⟩ := by
  have hfold : ∀ done : List Token, tokens.foldlM pass.step { tokens := done } =
      .ok { tokens := tokens.reverse ++ done } := by
    induction tokens with
    | nil => exact fun done => rfl
    | cons token tokens ih =>
        intro done
        obtain ⟨hcomment, hleft⟩ := htokens token List.mem_cons_self
        have hstep : pass.step { tokens := done } token = .ok { tokens := token :: done } := by
          simp [Pass.step, hcomment, hleft]
        rw [List.foldlM_cons, hstep, List.reverse_cons, List.append_assoc]
        exact ih (fun t ht => htokens t (List.mem_cons_of_mem _ ht)) (token :: done)
  rw [Pass.run, hfold []]
  simp [bind, Except.bind, Pass.finish]

/-- A tree that is read back, and what is read of its text, with no comments. -/
theorem Expr.Rereadable.tokens_of_render {e : Expr} {maxSteps : Nat} (tag : Tag)
    (he : e.Rereadable true) (hsteps : e.render.length ≤ maxSteps) :
    ∃ tokens, (Lexicon.postgreSql maxSteps).tokenize e.render = .ok tokens ∧
      normalize Dialect.postgreSql.delimiters e.render tokens = .ok ⟨tokens, []⟩ ∧
      (∀ token ∈ tokens, token.Usual) ∧ tokens.length ≤ e.render.length ∧
      Derives tag (.chain .disjunction) tokens (e.relabel (.stamp tag)) := by
  have hlength : e.written.length = e.render.length := String.length_toList
  have hreads : e.Reads maxSteps tag (.chain .disjunction) := he.reads.expression
  have hspells := hreads [] .nil
  obtain ⟨tokens, left, place, hrun, -, hcount, husual, hderives⟩ :=
    hspells.run maxSteps Place.start [] (by omega)
  have hunify : unifyNewlines e.written = e.written := unifyNewlines_eq_self hspells.noReturn
  refine ⟨tokens, ?_, ?_, husual, hlength ▸ hcount, hderives⟩
  · rw [Lexicon.tokenize]
    change Lexer.run _ maxSteps _ [] (unifyNewlines e.written) = _
    rw [hunify, ← List.append_nil e.written, hrun]
    simp [Lexer.run]
  · exact Escape.run_of_usual fun token htoken =>
      ⟨(husual token htoken).comment, (husual token htoken).delimiter⟩

/-- What is written of a tree is read back as the tree, with the tag of the settings on its
nodes. -/
theorem Settings.expression_of_render (settings : Settings) {e : Expr} {maxSteps : Nat}
    (he : e.Rereadable true) (hsteps : e.render.length ≤ maxSteps)
    (hdepth : e.render.length ≤ settings.maxDepth)
    (hiterations : e.render.length ≤ settings.maxIterations) :
    ∃ tokens tree, (Lexicon.postgreSql maxSteps).tokenize e.render = .ok tokens ∧
      normalize Dialect.postgreSql.delimiters e.render tokens = .ok ⟨tokens, []⟩ ∧
      settings.expression (Cursor.start tokens) = .ok tree ⟨tokens.reverse, [], 0⟩ ∧
      tree = e.relabel (.stamp settings.tag) ∧ (e == tree) = true := by
  obtain ⟨tokens, htokenize, hnormalize, husual, hcount, hderives⟩ :=
    he.tokens_of_render settings.tag hsteps
  have hfits : Fits settings settings.maxDepth tokens :=
    ⟨hcount.trans hdepth, hcount.trans hiterations, fun t ht => (husual t ht).spelled⟩
  have hread := hderives.expression_eq_ok hfits
  exact ⟨tokens, _, htokenize, hnormalize, hread, rfl, e.beq_stamp settings.tag⟩

/-- The tree of `NOT (a = 'it''s')`. -/
def notQuoted : Expr :=
  .node (.not (.node (.binary (.node (.identifier { value := "a" })) .equal
    (.node (.string "it's" false {})) {})) {})

theorem rereadable_notQuoted : notQuoted.Rereadable true := by
  have hname : Identifier.Plain { value := "a" } := ⟨⟨by decide, by decide +kernel⟩, rfl, rfl, rfl⟩
  have hequal : (Expr.node (.binary (.node (.identifier { value := "a" })) .equal
      (.node (.string "it's" false {})) {})).Rereadable true :=
    .binary rfl (by decide) (by decide) (.identifier hname) (.string (by decide))
  exact .not hequal

/-- With its quote doubled the string is read back. -/
theorem Settings.expression_of_render_notQuoted :
    notQuoted.render.length ≤ Dialect.postgreSql.settings.maxDepth ∧
      ∃ tokens tree, (Lexicon.postgreSql 100).tokenize notQuoted.render = .ok tokens ∧
        normalize Dialect.postgreSql.delimiters notQuoted.render tokens = .ok ⟨tokens, []⟩ ∧
        Dialect.postgreSql.settings.expression (Cursor.start tokens) =
          .ok tree ⟨tokens.reverse, [], 0⟩ ∧
        tree = notQuoted.relabel (.stamp ⟨some .postgreSql⟩) ∧ (notQuoted == tree) = true := by
  have hlength : notQuoted.render.length = 17 := by decide +kernel
  have hsteps : notQuoted.render.length ≤ 100 := by omega
  have hdepth : notQuoted.render.length ≤ Dialect.postgreSql.settings.maxDepth := by
    rw [hlength]
    decide
  have hiterations : notQuoted.render.length ≤ Dialect.postgreSql.settings.maxIterations := by
    rw [hlength]
    decide
  exact ⟨hdepth, Dialect.postgreSql.settings.expression_of_render rereadable_notQuoted hsteps hdepth
    hiterations⟩

end SqlTree
