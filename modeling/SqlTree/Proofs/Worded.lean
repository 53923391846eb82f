import SqlTree.Proofs.Passing
import SqlTree.Proofs.Reaching

/-!
# Keywords are words that their dialect reserves

The lexer takes a word for a keyword only when its dialect reserves it, and the pass over the
tokens adds escaped identifiers only.  So each keyword that the grammar gets is spelled as its
dialect spells it (`Dialect.worded_normalize`).
-/

namespace SqlTree

open Text Lexer

/-- Whether the token, if it is a keyword, is the one that its text is in a dialect. -/
def Token.WordedIn (d : Dialect) (token : Token) : Prop :=
  ∀ keyword, token.type = .keyword keyword → d.keyword? token.text = some keyword

theorem Token.WordedIn.of_not_isKeyword {d : Dialect} {token : Token}
    (hnot : token.type.isKeyword = false) : token.WordedIn d := by
  intro keyword htype
  rw [htype] at hnot
  cases hnot

namespace Lexer

variable {lx : Lexicon} {p : Piece} {cs : List Char} {tokens : List Token} {place : Place}

theorem not_isKeyword_symbols : ∀ entry ∈ symbols, entry.2.isKeyword = false := by
  decide

theorem Lexeme.wordedIn {type : TokenType} {text : String} (hlexeme : Lexeme lx p)
    (htoken : p.token = some (type, text)) (span : Span) :
    Token.WordedIn lx.dialect ⟨type, text, span⟩ := by
  cases hlexeme with
  | word =>
      obtain ⟨htype, rfl⟩ := Prod.mk.inj (Option.some.inj htoken)
      intro keyword hkeyword
      rw [← htype, wordType] at hkeyword
      dsimp only
      cases hword : lx.dialect.keyword? _ with
      | none =>
          rw [hword] at hkeyword
          cases hkeyword
      | some other =>
          rw [hword] at hkeyword
          cases hkeyword
          rfl
  | symbol hfind =>
      cases htoken
      exact .of_not_isKeyword (not_isKeyword_symbols _ (List.mem_of_find?_eq_some hfind))
  | separator => cases htoken
  | _ =>
      cases htoken
      exact .of_not_isKeyword rfl

/-- What is true of every token that a lexeme gives is true of all tokens that are scanned. -/
theorem Scanned.forall {P : Token → Prop}
    (hlexeme : ∀ {p : Piece} {type : TokenType} {text : String}, Lexeme lx p →
      p.token = some (type, text) → ∀ span, P ⟨type, text, span⟩)
    (h : Scanned lx place cs tokens) : ∀ token ∈ tokens, P token := by
  induction h with
  | nil => exact List.forall_mem_nil _
  | piece hpiece _ ih =>
      intro token htoken
      rcases List.mem_append.1 htoken with hhere | hlater
      · obtain ⟨type, text, htype, rfl⟩ := exists_of_mem_tokenBetween hhere
        exact hlexeme (lexeme_of_piece hpiece).1 htype _
      · exact ih token hlater

end Lexer

/-- What is true of escaped identifiers, and of every token that a lexeme gives, is true of all
tokens that the grammar gets. -/
theorem Dialect.forall_normalize (d : Dialect) {P : Token → Prop} {text : String}
    {result : Normalized} (hquoted : ∀ token : Token, token.type = .quotedIdentifier → P token)
    (hlexeme : ∀ {p : Piece} {type : TokenType} {text : String}, Lexeme d.lexicon p →
      p.token = some (type, text) → ∀ span, P ⟨type, text, span⟩)
    (hnormalize : d.normalize text = .ok result) : ∀ token ∈ result.tokens, P token := by
  obtain ⟨leftType, rightType, hleft, hright⟩ := d.exists_delimiterTypes
  rw [Dialect.normalize] at hnormalize
  obtain ⟨tokens, htokens, hrun⟩ := except_bind_eq_ok.1 hnormalize
  rw [SqlTree.normalize, Escape.delimiterType_of_some hleft,
    Escape.delimiterType_of_some hright] at hrun
  have hpass : Escape.Pass.run ⟨d.delimiters, leftType, rightType,
      (unifyNewlines text.toList).toArray⟩ tokens = .ok result := hrun
  obtain ⟨_, rfl, hscanned⟩ := scanned_of_run htokens
  exact Escape.forall_of_run hquoted (hscanned.forall hlexeme) hpass

/-- Each keyword that the grammar gets is spelled as the dialect spells it. -/
theorem Dialect.worded_normalize (d : Dialect) {text : String} {result : Normalized}
    (hnormalize : d.normalize text = .ok result) : ∀ token ∈ result.tokens, token.WordedIn d :=
  d.forall_normalize (fun _ htype => .of_not_isKeyword (congrArg TokenType.isKeyword htype))
    (fun hlexeme htoken => hlexeme.wordedIn htoken) hnormalize

end SqlTree
