import SqlTree.Proofs.Confinement.Construct
import SqlTree.Proofs.Worded

/-!
# The tokens that a dialect issues

Not every dialect has every keyword, and hints and national strings are read in some dialects
only.  So the tokens that the grammar gets are of certain types (`Dialect.issues_normalize`), and
a token that a construct cannot do without tells that the dialect has the construct
(`Speciality.of_issues`).
-/

namespace SqlTree

open Lexer

/-- Whether tokens of a type can come from a text in the dialect. -/
def Dialect.issues (d : Dialect) : TokenType → Bool
  | .keyword word => d.keywords.any fun entry => entry.2 == word
  | .hint => d.hintComments
  | .nationalString => d.nationalStrings
  | _ => true

/-- The type of a token that a construct cannot do without, where that token alone tells that the
dialect has the construct. -/
def Speciality.sign? : Speciality → Option TokenType
  | .top => some (.keyword .TOP)
  | .nationalString => some .nationalString
  | .connectBy => some (.keyword .CONNECT)
  | .siblings => some (.keyword .SIBLINGS)
  | .unique => some (.keyword .UNIQUE)
  | .minus => some (.keyword .MINUS)
  | .array => some (.keyword .ARRAY)
  | .ilike => some (.keyword .ILIKE)
  | .pivot => some (.keyword .PIVOT)
  | .interval => some (.keyword .INTERVAL)
  | .statementHint => some .hint
  | .into | .tableHint | .link => none

/-- A dialect that issues the token of a construct has the construct. -/
theorem Speciality.of_issues {s : Speciality} {type : TokenType} {d : Dialect}
    (hissues : d.issues type = true) (hsign : s.sign? = some type) : d ∈ s.dialects := by
  revert hissues
  cases s <;> cases hsign <;> cases d <;> decide

theorem issues_symbols (d : Dialect) : ∀ entry ∈ symbols, d.issues entry.2 = true := by
  cases d <;> decide

/-- A word is a keyword only if the dialect reserves it. -/
theorem Dialect.issues_wordType (d : Dialect) (text : String) :
    d.issues (wordType d.lexicon text) = true := by
  unfold wordType
  cases hword : d.lexicon.dialect.keyword? text with
  | none => rfl
  | some word =>
      obtain ⟨_, _, hkeywords, -⟩ := List.lookup_eq_some_iff.1 hword
      refine List.any_eq_true.2 ⟨_, hkeywords ▸ List.mem_append_right _ List.mem_cons_self, ?_⟩
      exact beq_self_eq_true word

theorem Lexer.Lexeme.issues {d : Dialect} {p : Piece} {type : TokenType} {text : String}
    (hlexeme : Lexeme d.lexicon p) (htoken : p.token = some (type, text)) :
    d.issues type = true := by
  cases hlexeme with
  | word =>
      obtain ⟨rfl, -⟩ := Prod.mk.inj (Option.some.inj htoken)
      exact d.issues_wordType _
  | symbol hfind =>
      cases htoken
      exact issues_symbols d _ (List.mem_of_find?_eq_some hfind)
  | hint _ hhint =>
      cases htoken
      exact hhint
  | national _ _ hopens =>
      cases htoken
      exact (Bool.and_eq_true_iff.1 hopens).1
  | separator => cases htoken
  | _ =>
      cases htoken
      rfl

/-- The tokens that the grammar gets are of types that the dialect issues. -/
theorem Dialect.issues_normalize (d : Dialect) {text : String} {result : Normalized}
    (hnormalize : d.normalize text = .ok result) :
    ∀ token ∈ result.tokens, d.issues token.type = true :=
  d.forall_normalize (fun _ htype => congrArg d.issues htype)
    (fun hlexeme htoken _ => hlexeme.issues htoken) hnormalize

end SqlTree
