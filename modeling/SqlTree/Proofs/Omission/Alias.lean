import SqlTree.Parsed
import SqlTree.Proofs.Omission.Statement
import SqlTree.Proofs.Worded

/-!
# `AS` before an alias is optional

Main statement: where `AS` stands right before a name in a statement, it can be left out, unless
the name is one that could be read otherwise (`Dialect.statementOf_without_as`).
-/

namespace SqlTree

open SqlTree.Parser

/-- The words that mean something else where an alias may stand. -/
def wordsBesideAliases : List String :=
  ["OFFSET", "ROW", "ROWS", "FETCH", "WITHIN"] ++ TimeUnit.words

/-- Whether a token can only be an alias where one may stand: an escaped identifier, or an
identifier that is none of the words with another meaning, whatever the case of its letters. -/
def Token.IsClearAlias (token : Token) : Prop :=
  token.type = .quotedIdentifier ∨
    token.type = .identifier ∧ ∀ word ∈ wordsBesideAliases, Text.sameWord token.text word = false

instance (token : Token) : Decidable token.IsClearAlias :=
  inferInstanceAs (Decidable (_ ∨ _ ∧ _))

namespace Token.IsClearAlias

variable {token : Token}

theorem isBareAlias (h : token.IsClearAlias) : token.isBareAlias = true := by
  rcases h with htype | ⟨htype, hother⟩
  · rw [Token.isBareAlias, htype]
  · rw [Token.isBareAlias, htype]
    have hclause : ∀ word ∈ clauseWords, word ∈ wordsBesideAliases := by decide
    refine (Bool.not_eq_true' _).mpr (List.any_eq_false.2 fun word hword => ?_)
    rw [hother word (hclause word hword)]
    exact Bool.false_ne_true

theorem not_within (h : token.IsClearAlias) : token.isThisWord "WITHIN" = false := by
  rcases h with htype | ⟨htype, hother⟩
  · rw [Token.isThisWord, htype]
    rfl
  · rw [Token.isThisWord, hother "WITHIN" (by decide), Bool.and_false]

theorem not_unit (h : token.IsClearAlias) : Level.isTimeUnit token = false := by
  rcases h with htype | ⟨htype, hother⟩
  · rw [Level.isTimeUnit, htype]
    rfl
  · rw [Level.isTimeUnit, Bool.and_eq_false_iff, List.any_eq_false]
    refine .inr fun word hword => ?_
    rw [hother word (List.mem_append_right _ hword)]
    exact Bool.false_ne_true

end Token.IsClearAlias

theorem TokenType.hidesAs_eq_false {type : TokenType}
    (hnot : type ∉ [.dot, .atSign, .colon, .keyword .COLLATE, .keyword .AS]) :
    type.hidesAs = false := by
  cases type with
  | dot | atSign | colon => exact absurd (by decide) hnot
  | keyword word =>
      cases word with
      | COLLATE | AS => exact absurd (by decide) hnot
      | _ => rfl
  | _ => rfl

theorem Token.WordedIn.spelled {d : Dialect} {token : Token} (h : token.WordedIn d) :
    token.Spelled :=
  fun keyword htype => ⟨d, h keyword htype⟩

/-- Only the word itself is the keyword `AS`. -/
theorem Dialect.upper_eq_of_keyword?_as {d : Dialect} {word : String}
    (hkeyword : d.keyword? word = some .AS) : Text.upper word = "AS" := by
  have honly : ∀ entry ∈ d.keywords, entry.2 = .AS → entry.1 = "AS" := by
    cases d <;> decide
  obtain ⟨before, after, hsplit, -⟩ := List.lookup_eq_some_iff.1 hkeyword
  have hmem : (Text.upper word, Keyword.AS) ∈ d.keywords := by simp [hsplit]
  exact honly _ hmem rfl

namespace Dialect

variable {d : Dialect} {text : String} {result : Normalized} {settings : Settings}
  {front back : List Token} {word name : Token} {e : Expr}

/-- `AS` before an alias is optional.  Take the tokens of a text as the grammar gets them, and
among them an `AS` with a clear alias right behind it and none of `.`, `@`, `:`, `COLLATE` and
`AS` right before it.  If a statement is read from the tokens, the same statement is read from
them without that `AS`. -/
theorem statementOf_without_as (hnormalize : d.normalize text = .ok result)
    (htokens : result.tokens = front ++ word :: name :: back) (hword : word.type = .keyword .AS)
    (hname : name.IsClearAlias)
    (hlast : ∀ last ∈ front.getLast?,
      last.type ∉ [.dot, .atSign, .colon, .keyword .COLLATE, .keyword .AS])
    (hread : settings.statementOf (front ++ word :: name :: back) = .ok e) :
    settings.statementOf (front ++ name :: back) = .ok e := by
  have hworded : ∀ token ∈ front ++ word :: name :: back, token.WordedIn d := by
    rw [← htokens]
    exact d.worded_normalize hnormalize
  have hkeyword : d.keyword? word.text = some .AS := hworded word (by simp) .AS hword
  have htype : name.type = .identifier ∨ name.type = .quotedIdentifier := hname.symm.imp And.left id
  obtain ⟨o, rfl, rfl⟩ : ∃ o : Omission, o.word = word ∧ o.name = name :=
    ⟨⟨word, name, hword, upper_eq_of_keyword?_as hkeyword, htype, hname.isBareAlias,
      hname.not_within, hname.not_unit⟩, rfl, rfl⟩
  have hapart :
      o.Apart (.start (front ++ o.word :: o.name :: back)) (.start (front ++ o.name :: back)) := by
    refine .before (fun last hmem => ?_) fun token htoken => (hworded token ?_).spelled
    · rw [List.append_nil, List.head?_reverse] at hmem
      exact TokenType.hidesAs_eq_false (hlast last hmem)
    · rcases List.mem_append.1 htoken with hfront | hback
      · exact List.mem_append_left _ hfront
      · exact List.mem_append_right _ (.tail _ (.tail _ hback))
  cases hfull : settings.statement (.start (front ++ o.word :: o.name :: back)) with
  | error error c =>
      rw [Settings.statementOf, hfull] at hread
      cases hread
  | ok full c =>
      obtain ⟨c', hshort⟩ := settings.follows_statement o hapart hfull
      rw [Settings.statementOf, hfull] at hread
      rw [Settings.statementOf, hshort]
      exact hread

/-- An interval without a unit, whose alias is the word that says where nulls are sorted. -/
theorem statementOf_without_as_interval :
    ∃ result front word name back e,
      postgreSql.normalize "SELECT INTERVAL 1 AS nulls FROM t" = .ok result ∧
      result.tokens = front ++ word :: name :: back ∧ word.type = .keyword .AS ∧ name.IsClearAlias ∧
      (∀ last ∈ front.getLast?,
        last.type ∉ [.dot, .atSign, .colon, .keyword .COLLATE, .keyword .AS]) ∧
      postgreSql.settings.statementOf (front ++ word :: name :: back) = .ok e ∧
      postgreSql.settings.statementOf (front ++ name :: back) = .ok e := by
  let front : List Token := [⟨.keyword .SELECT, "SELECT", ⟨0, 6, 1, 1⟩⟩,
    ⟨.keyword .INTERVAL, "INTERVAL", ⟨7, 15, 1, 8⟩⟩, ⟨.number, "1", ⟨16, 17, 1, 17⟩⟩]
  let word : Token := ⟨.keyword .AS, "AS", ⟨18, 20, 1, 19⟩⟩
  let name : Token := ⟨.identifier, "nulls", ⟨21, 26, 1, 22⟩⟩
  let back : List Token :=
    [⟨.keyword .FROM, "FROM", ⟨27, 31, 1, 28⟩⟩, ⟨.identifier, "t", ⟨32, 33, 1, 33⟩⟩]
  have hnormalize : postgreSql.normalize "SELECT INTERVAL 1 AS nulls FROM t" =
      .ok ⟨front ++ word :: name :: back, []⟩ := by
    decide +kernel
  have hname : name.IsClearAlias := by decide
  have hlast : ∀ last ∈ front.getLast?,
      last.type ∉ [.dot, .atSign, .colon, .keyword .COLLATE, .keyword .AS] := by
    decide
  have hok : (postgreSql.settings.statementOf (front ++ word :: name :: back)).isOk = true := by
    decide +kernel
  cases hread : postgreSql.settings.statementOf (front ++ word :: name :: back) with
  | error error =>
      rw [hread] at hok
      cases hok
  | ok e =>
      exact ⟨_, front, word, name, back, e, hnormalize, rfl, rfl, hname, hlast, hread,
        statementOf_without_as hnormalize rfl rfl hname hlast hread⟩

end Dialect

end SqlTree
