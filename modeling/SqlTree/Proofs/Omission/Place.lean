import SqlTree.Grammar.Unit
import SqlTree.Proofs.Derivation.Grammar
import SqlTree.Proofs.Lookahead
import SqlTree.Proofs.Run

/-!
# Leaving out `AS`

Two readings are followed side by side: of tokens in which `AS` stands before the name of an
alias, and of the same tokens without that `AS`.  They agree until the word is reached, and again
once the alias has been read.  In between the second reading can take the name for something else:
`AT` for the start of a time zone, `NULLS` for the place of nulls.  Then the first reading is
stuck: the token before it, which is `AS` or `TIME` or the `AT` before such an `AS`, can start
nothing that may stand there, so no rule that comes next takes it, and the statement is refused in
the end.  Here is where the two readings stand: at places that are apart (`Omission.Apart`), or
with the first one stuck (`Omission.Foreign`).
-/

namespace SqlTree

open SqlTree.Parser

/-! ## Tokens -/

/-- Whether a token type is neither that of `AS` nor that of a name. -/
def TokenType.isSteady : TokenType → Bool
  | .keyword .AS | .identifier | .quotedIdentifier => false
  | _ => true

theorem TokenType.eq_of_isSteady {type : TokenType} (hsteady : type.isSteady = false) :
    type = .keyword .AS ∨ type = .identifier ∨ type = .quotedIdentifier := by
  cases type with
  | identifier => exact .inr (.inl rfl)
  | quotedIdentifier => exact .inr (.inr rfl)
  | keyword word =>
      cases word with
      | AS => exact .inl rfl
      | _ => cases hsteady
  | _ => cases hsteady

/-- Whether `AS` right behind a token of the type is read as a name. -/
def TokenType.hidesAs : TokenType → Bool
  | .dot | .atSign | .colon | .keyword .COLLATE | .keyword .AS => true
  | _ => false

/-- The words that a reading can be stuck before. -/
def stuckWords : List String := ["AS", "AT", "TIME"]

/-- A keyword is none of the words that its dialects spell otherwise. -/
theorem Token.Spelled.isThisWord_eq_false {token : Token} {keyword : Keyword} {word : String}
    (hspelled : token.Spelled) (htype : token.type = .keyword keyword)
    (hother : ∀ d : Dialect, d.keyword? word ≠ some keyword) : token.isThisWord word = false := by
  rw [Bool.eq_false_iff]
  intro hthis
  obtain ⟨d, hkeyword⟩ := hspelled keyword htype
  rw [d.keyword?_congr (Bool.and_eq_true_iff.1 hthis).2] at hkeyword
  exact hother d hkeyword

/-- A word that no dialect reserves is an identifier. -/
theorem Token.Spelled.type_eq_identifier {token : Token} {word : String} (hspelled : token.Spelled)
    (hthis : token.isThisWord word = true) (hfree : ∀ d : Dialect, d.keyword? word = none) :
    token.type = .identifier := by
  cases htype : token.type with
  | identifier => rfl
  | keyword keyword =>
      have hother : ∀ d : Dialect, d.keyword? word ≠ some keyword := fun d => hfree d ▸ nofun
      rw [hspelled.isThisWord_eq_false htype hother] at hthis
      cases hthis
  | _ =>
      rw [Token.isThisWord, htype] at hthis
      cases hthis

/-- `AS` and the name of an alias right behind it, which can be told to be one without `AS`. -/
structure Omission where
  word : Token
  name : Token
  word_type : word.type = .keyword .AS
  word_text : Text.upper word.text = "AS"
  name_type : name.type = .identifier ∨ name.type = .quotedIdentifier
  bare : name.isBareAlias = true
  not_within : name.isThisWord "WITHIN" = false
  not_unit : Level.isTimeUnit name = false

namespace Omission

variable {o : Omission} {c d : Cursor}

theorem name_type_ne (o : Omission) {type : TokenType} (htype : type.isSteady = true) :
    o.name.type ≠ type := by
  rintro rfl
  rcases o.name_type with h | h <;> rw [h] at htype <;> cases htype

theorem word_type_ne (o : Omission) {type : TokenType} (htype : type.isSteady = true) :
    o.word.type ≠ type := by
  rintro rfl
  rw [o.word_type] at htype
  cases htype

/-- `AS` is no other word. -/
theorem word_isThisWord_ne (o : Omission) {word : String} (hword : Text.upper word ≠ "AS") :
    o.word.isThisWord word ≠ true := by
  intro hthis
  have hsame := Text.sameWord_iff.1 (Bool.and_eq_true_iff.1 hthis).2
  exact hword (hsame.symm.trans o.word_text)

theorem word_isThisWord (o : Omission) {word : String} (hword : Text.upper word ≠ "AS") :
    o.word.isThisWord word = false :=
  Bool.eq_false_iff.2 (o.word_isThisWord_ne hword)

/-! ## Places -/

/-- The first cursor stands among tokens with `AS`, the second one at the same place without it. -/
inductive Apart (o : Omission) : Cursor → Cursor → Prop where
  /-- The word is still ahead, and it will not be read as a name. -/
  | before {behind front rest : List Token} {depth : Nat}
      (hlast : ∀ last ∈ (front.reverse ++ behind).head?, last.type.hidesAs = false)
      (hspelled : ∀ token ∈ front ++ rest, token.Spelled) :
      Apart o ⟨behind, front ++ o.word :: o.name :: rest, depth⟩
        ⟨behind, front ++ o.name :: rest, depth⟩
  /-- The alias has been read. -/
  | past {behind behind' ahead : List Token} {depth : Nat} (hlast : behind.head? = behind'.head?) :
      Apart o ⟨behind, ahead, depth⟩ ⟨behind', ahead, depth⟩

/-- The cursor stands before the word, which is not read as a name. -/
structure AtWord (o : Omission) (c : Cursor) : Prop where
  ahead : ∃ rest, c.ahead = o.word :: o.name :: rest
  shown : ∀ last ∈ c.behind.head?, last.type.hidesAs = false

theorem AtWord.nextType (hat : o.AtWord c) : c.nextType = some (.keyword .AS) := by
  obtain ⟨rest, hahead⟩ := hat.ahead
  rw [Cursor.nextType_of_ahead hahead, o.word_type]

/-- What comes next at places that are apart. -/
inductive Next (o : Omission) (c d : Cursor) : Prop where
  /-- The word comes next. -/
  | word {rest : List Token} (hat : o.AtWord c) (hc : c.ahead = o.word :: o.name :: rest)
      (hd : d.ahead = o.name :: rest) (hspelled : ∀ token ∈ rest, token.Spelled)
      (hstep : o.Apart c.step.step d.step)
  /-- Nothing does. -/
  | none (hc : c.ahead = []) (hd : d.ahead = [])
  /-- The same token does. -/
  | token {token : Token} {more more' : List Token} (hc : c.ahead = token :: more)
      (hd : d.ahead = token :: more') (hstep : o.Apart c.step d.step)

theorem Apart.next (h : o.Apart c d) : o.Next c d := by
  cases h with
  | @before behind front rest depth hlast hspelled =>
      cases front with
      | nil => exact .word ⟨⟨rest, rfl⟩, hlast⟩ rfl rfl hspelled (.past rfl)
      | cons token front =>
          have hstep : o.Apart ⟨token :: behind, front ++ o.word :: o.name :: rest, depth⟩
              ⟨token :: behind, front ++ o.name :: rest, depth⟩ := by
            refine .before ?_ fun t ht => hspelled t (List.mem_cons_of_mem _ ht)
            rwa [List.reverse_cons, List.append_assoc] at hlast
          exact .token rfl rfl hstep
  | @past behind behind' ahead depth hlast =>
      cases ahead with
      | nil => exact .none rfl rfl
      | cons token ahead => exact .token rfl rfl (.past rfl)

/-- Unless the word comes next, the places stay apart one token further. -/
theorem Apart.step (h : o.Apart c d) (hat : ¬o.AtWord c) : o.Apart c.step d.step := by
  cases h.next with
  | word hword => exact (hat hword).elim
  | none hc hd => rwa [Cursor.step, Cursor.step, hc, hd]
  | token hc hd hstep => exact hstep

theorem Apart.behind (h : o.Apart c d) : c.behind.head? = d.behind.head? := by
  cases h with
  | before => rfl
  | past hlast => exact hlast

theorem Apart.depth_eq (h : o.Apart c d) : c.depth = d.depth := by
  cases h <;> rfl

theorem Apart.withDepth (h : o.Apart c d) (depth : Nat) :
    o.Apart { c with depth } { d with depth } := by
  cases h with
  | before hlast hspelled => exact .before hlast hspelled
  | past hlast => exact .past hlast

/-- Unless the word comes next, the same token does. -/
theorem Apart.head_eq (h : o.Apart c d) (hat : ¬o.AtWord c) : c.ahead.head? = d.ahead.head? := by
  cases h.next with
  | word hword => exact (hat hword).elim
  | none hc hd => rw [hc, hd]
  | token hc hd =>
      rw [hc, hd]
      rfl

theorem Apart.nextType_eq (h : o.Apart c d) (hat : ¬o.AtWord c) : c.nextType = d.nextType :=
  congrArg (Option.map Token.type) (h.head_eq hat)

/-! ## Looking ahead -/

/-- Behind a token that hides it, `AS` is read as a name. -/
theorem not_atWord_of_behind {type : TokenType} (hlast : c.behind.head?.map Token.type = some type)
    (hhides : type.hidesAs = true) : ¬o.AtWord c := by
  intro hat
  obtain ⟨last, hmem, rfl⟩ := Option.map_eq_some_iff.1 hlast
  rw [hat.shown last hmem] at hhides
  cases hhides

theorem not_atWord_of_nextType {type : TokenType} (hnext : c.nextType = some type)
    (htype : type ≠ .keyword .AS) : ¬o.AtWord c :=
  fun hat => htype (Option.some.inj (hnext.symm.trans hat.nextType))

/-- Where the word comes next, no token of a steady type does. -/
theorem AtWord.nextType_ne (hat : o.AtWord c) {type : TokenType} (htype : type.isSteady = true) :
    c.nextType ≠ some type := by
  rw [hat.nextType]
  rintro ⟨⟩
  cases htype

/-- Nor does one come next without the word. -/
theorem Apart.nextType_ne (h : o.Apart c d) (hat : o.AtWord c) {type : TokenType}
    (htype : type.isSteady = true) : d.nextType ≠ some type := by
  cases h.next with
  | word _ _ hd =>
      rw [Cursor.nextType_of_ahead hd]
      exact fun hname => o.name_type_ne htype (Option.some.inj hname)
  | none hc =>
      have hnext := hat.nextType
      rw [Cursor.nextType, hc] at hnext
      cases hnext
  | token hc hd =>
      rw [Cursor.nextType_of_ahead hd, ← Cursor.nextType_of_ahead hc]
      exact hat.nextType_ne htype

/-- Whether a token of a steady type comes next is the same. -/
theorem Apart.nextType_beq (h : o.Apart c d) {type : TokenType} (htype : type.isSteady = true) :
    (c.nextType == some type) = (d.nextType == some type) := by
  by_cases hat : o.AtWord c
  · rw [beq_false_of_ne (hat.nextType_ne htype), beq_false_of_ne (h.nextType_ne hat htype)]
  · rw [h.nextType_eq hat]

theorem secondType_of_ahead {token : Token} {more : List Token} (hahead : c.ahead = token :: more) :
    c.secondType = c.step.nextType := by
  rw [Cursor.secondType, Cursor.nextType, Cursor.step_ahead hahead, hahead]
  rfl

theorem nextType_step {first second : TokenType} (hnext : c.nextType = some first)
    (hsecond : (c.secondType == some second) = true) : c.step.nextType = some second := by
  obtain ⟨token, more, hahead, -⟩ := Cursor.exists_ahead_of_nextType hnext
  rw [← secondType_of_ahead hahead]
  exact eq_of_beq hsecond

/-- Unless the word comes next, the same type comes second, or else the word and the name do. -/
theorem Apart.secondType_or (h : o.Apart c d) (hat : ¬o.AtWord c) :
    c.secondType = d.secondType ∨
      c.secondType = some (.keyword .AS) ∧ d.secondType = some o.name.type := by
  cases h.next with
  | word hword => exact (hat hword).elim
  | none hc hd =>
      left
      rw [Cursor.secondType, Cursor.secondType, hc, hd]
  | token hc hd hstep =>
      rw [secondType_of_ahead hc, secondType_of_ahead hd]
      cases hstep.next with
      | word hatSecond _ hd' => exact .inr ⟨hatSecond.nextType, Cursor.nextType_of_ahead hd'⟩
      | none hc' hd' =>
          left
          rw [Cursor.nextType, Cursor.nextType, hc', hd']
      | token hc' hd' =>
          left
          rw [Cursor.nextType_of_ahead hc', Cursor.nextType_of_ahead hd']

/-- Whether a token of a steady type comes second is the same. -/
theorem Apart.secondType_beq (h : o.Apart c d) (hat : ¬o.AtWord c) {type : TokenType}
    (htype : type.isSteady = true) : (c.secondType == some type) = (d.secondType == some type) := by
  cases h.next with
  | word hword => exact (hat hword).elim
  | none hc hd => rw [Cursor.secondType, Cursor.secondType, hc, hd]
  | token hc hd hstep =>
      rw [secondType_of_ahead hc, secondType_of_ahead hd]
      exact hstep.nextType_beq htype

section

variable (o) (front rest : List Token)

theorem endsOperand_eq : Lookahead.endsOperand (front ++ o.word :: o.name :: rest) =
    Lookahead.endsOperand (front ++ o.name :: rest) := by
  cases front with
  | nil =>
      rcases o.name_type with h | h <;>
        simp only [List.nil_append, Lookahead.endsOperand, o.word_type, h]
  | cons token front => rfl

/-- The word does not matter to where parentheses close. -/
theorem leadingClose_eq (isOpen lowest : Nat) :
    Lookahead.leadingClose isOpen lowest (front ++ o.word :: o.name :: rest) =
      Lookahead.leadingClose isOpen lowest (front ++ o.name :: rest) := by
  induction front generalizing isOpen lowest with
  | nil =>
      rw [List.nil_append, List.nil_append, Lookahead.leadingClose]
      rw [if_neg (o.word_type_ne rfl), if_neg (o.word_type_ne rfl)]
      by_cases hopen : isOpen = 0
      · rw [if_pos hopen, Lookahead.leadingClose, if_pos hopen]
      · rw [if_neg hopen]
  | cons token front ih =>
      simp only [List.cons_append, Lookahead.leadingClose, endsOperand_eq, ih]

/-- The word does not matter to whether a query starts. -/
theorem startsQuery_eq : startsQuery (front ++ o.word :: o.name :: rest) =
    startsQuery (front ++ o.name :: rest) := by
  rw [SqlTree.startsQuery_eq, SqlTree.startsQuery_eq]
  generalize 0 = leading
  induction front generalizing leading with
  | nil =>
      have hnot : ∀ {token : Token} {more : List Token}, (∀ {type : TokenType},
          type.isSteady = true → token.type ≠ type) →
          Lookahead.queryAfter leading (token :: more) = false := by
        intro token more hne
        rw [Lookahead.queryAfter, if_neg (hne rfl)]
        rw [beq_false_of_ne (hne rfl), beq_false_of_ne (hne rfl)]
        rfl
      exact (hnot o.word_type_ne).trans (hnot o.name_type_ne).symm
  | cons token front ih =>
      simp only [List.cons_append, Lookahead.queryAfter, leadingClose_eq, ih]

end

theorem Apart.startsQuery_eq (h : o.Apart c d) : startsQuery c.ahead = startsQuery d.ahead := by
  cases h with
  | @before behind front rest => exact o.startsQuery_eq front rest
  | past => rfl

/-- Whether a query starts behind the next token is the same. -/
theorem Apart.startsQuery_tail_eq (h : o.Apart c d) (hat : ¬o.AtWord c) :
    startsQuery c.ahead.tail = startsQuery d.ahead.tail := by
  cases h.next with
  | word hword => exact (hat hword).elim
  | none hc hd => rw [hc, hd]
  | token hc hd hstep =>
      have hsame := hstep.startsQuery_eq
      rw [Cursor.step_ahead hc, Cursor.step_ahead hd] at hsame
      rw [hc, hd]
      exact hsame

/-! ## Where the first reading is stuck -/

/-- The first reading stands before a token that nothing takes which may come next. -/
inductive Foreign (o : Omission) : Cursor → Prop where
  | word {behind rest : List Token} {depth : Nat} : Foreign o ⟨behind, o.word :: rest, depth⟩
  | time {behind rest : List Token} {depth : Nat} {token : Token} (htype : token.type = .identifier)
      (htext : Text.upper token.text = "TIME") : Foreign o ⟨behind, token :: rest, depth⟩
  | atWord {behind rest : List Token} {depth : Nat} {token : Token}
      (htype : token.type = .identifier)
      (htext : Text.upper token.text = "AT") : Foreign o ⟨behind, token :: o.word :: rest, depth⟩

/-- The first reading is stuck, but an alias can still come next: without the word, the tokens
`AT` and `TIME` would stand here. -/
inductive Open (o : Omission) : Cursor → Prop where
  | word {behind rest : List Token} {depth : Nat} {token : Token} (htype : token.type = .identifier)
      (htext : Text.upper token.text = "TIME") :
      Open o ⟨behind, o.word :: o.name :: token :: rest, depth⟩
  | atWord {behind rest : List Token} {depth : Nat} {token : Token}
      (htype : token.type = .identifier)
      (htext : Text.upper token.text = "AT") : Open o ⟨behind, token :: o.word :: rest, depth⟩

/-- The first reading is not stuck. -/
def Never (_ : Cursor) : Prop := False

theorem Open.foreign (h : o.Open c) : o.Foreign c := by
  cases h with
  | word => exact .word
  | atWord htype htext => exact .atWord htype htext

namespace Foreign

/-- What comes next is `AS` or an identifier, and one of three words. -/
theorem next (h : o.Foreign c) : ∃ token rest, c.ahead = token :: rest ∧
    (token.type = .keyword .AS ∨ token.type = .identifier) ∧
      Text.upper token.text ∈ stuckWords := by
  cases h with
  | word => exact ⟨_, _, rfl, .inl o.word_type, by simp [o.word_text, stuckWords]⟩
  | time htype htext => exact ⟨_, _, rfl, .inr htype, by simp [htext, stuckWords]⟩
  | atWord htype htext => exact ⟨_, _, rfl, .inr htype, by simp [htext, stuckWords]⟩

theorem nextType (h : o.Foreign c) :
    c.nextType = some (.keyword .AS) ∨ c.nextType = some .identifier := by
  obtain ⟨token, rest, hahead, htype, -⟩ := h.next
  rw [Cursor.nextType_of_ahead hahead]
  exact htype.imp (congrArg some) (congrArg some)

theorem nextType_ne (h : o.Foreign c) {type : TokenType} (htype : type.isSteady = true) :
    c.nextType ≠ some type := by
  rcases h.nextType with hnext | hnext <;> rw [hnext] <;> rintro ⟨⟩ <;> cases htype

theorem withDepth (h : o.Foreign c) (depth : Nat) : o.Foreign { c with depth } := by
  cases h with
  | word => exact .word
  | time htype htext => exact .time htype htext
  | atWord htype htext => exact .atWord htype htext

end Foreign

/-- A set of places where the first reading may be stuck. -/
class Stuck (o : Omission) (S : Cursor → Prop) : Prop where
  foreign : ∀ c, S c → o.Foreign c
  withDepth : ∀ c depth, S c → S { c with depth }

theorem Stuck.at {S : Cursor → Prop} [Stuck o S] (h : S c) : o.Foreign c :=
  Stuck.foreign c h

instance : Stuck o Never := ⟨fun _ => False.elim, fun _ _ => False.elim⟩

instance : Stuck o o.Foreign := ⟨fun _ => id, fun _ depth h => h.withDepth depth⟩

instance : Stuck o o.Open where
  foreign _ h := h.foreign
  withDepth _ _ h := by
    cases h with
    | word htype htext => exact .word htype htext
    | atWord htype htext => exact .atWord htype htext

/-- The places of one set are among those of another one; found by instance search. -/
class Within (S T : Cursor → Prop) : Prop where
  imp : ∀ c, S c → T c

instance {S : Cursor → Prop} : Within S S := ⟨fun _ => id⟩

instance {S : Cursor → Prop} : Within Never S := ⟨fun _ => False.elim⟩

instance : Within o.Open o.Foreign := ⟨fun _ => Open.foreign⟩

end Omission

end SqlTree
