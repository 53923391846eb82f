import SqlTree.Proofs.Likeness.Reading

/-!
# Like names

Names, aliases, collations and variables are read alike from like places.
-/

namespace SqlTree

open SqlTree.Parser

namespace Cursor

variable {c : Cursor} {type : TokenType}

/-- A part of a name is no bracket. -/
theorem not_isBracket_of_isNamePart (hpart : c.isNamePart = true) (hnext : c.nextType = some type) :
    type.isBracket = false := by
  simp only [isNamePart, startsName, startsKeywordCall, hnext, Option.map_some,
    Option.getD_some] at hpart
  revert hpart
  cases type <;> simp [TokenType.isBracket, TokenType.isName, TokenType.isNameKeyword,
    TokenType.isFunctionKeyword, TokenType.isKeyword]

/-- A next token of which something is told is no bracket if that is told of no bracket. -/
theorem not_isBracket_of_next {look : Token → Bool}
    (hlook : ∀ token, look token = true → token.type.isBracket = false)
    (hnext : (c.ahead.head?.map look).getD false = true) (htype : c.nextType = some type) :
    type.isBracket = false := by
  obtain ⟨behind, _ | ⟨token, ahead⟩, depth⟩ := c
  · cases hnext
  · exact Option.some.inj htype ▸ hlook token hnext

/-- A word is no bracket, and neither is a token of the other types that are asked for. -/
theorem not_isBracket_of_isWordOr {also : TokenType → Bool}
    (halso : ∀ type, also type = true → type.isBracket = false)
    (hword : c.isWordOr also = true) (hnext : c.nextType = some type) : type.isBracket = false := by
  simp only [isWordOr, hnext, Bool.or_eq_true] at hword
  rcases hword with hword | hword
  · cases type <;> first | rfl | cases hword
  · exact halso type hword

end Cursor

theorem TokenType.not_isBracket_of_quoted (type : TokenType)
    (hquoted : (type = .quotedIdentifier || type = .string) = true) : type.isBracket = false := by
  simp only [Bool.or_eq_true, decide_eq_true_eq] at hquoted
  rcases hquoted with rfl | rfl <;> rfl

theorem Token.not_isBracket_of_isBareAlias {token : Token} (halias : token.isBareAlias = true) :
    token.type.isBracket = false := by
  unfold Token.isBareAlias at halias
  cases htype : token.type <;> first | rfl | simp [htype] at halias

namespace Likeness

variable {L : Likeness}

theorem shared_startsName (hL : L.Lawful) : L.Shared Cursor.startsName := by
  intro base s c d habreast
  rw [Cursor.startsName, Cursor.startsName, habreast.nextType hL]

theorem shared_startsKeywordCall (hL : L.Lawful) : L.Shared Cursor.startsKeywordCall := by
  intro base s c d habreast
  rw [Cursor.startsKeywordCall, Cursor.startsKeywordCall, habreast.nextType hL,
    habreast.secondType hL]

theorem shared_isNamePart (hL : L.Lawful) : L.Shared Cursor.isNamePart := by
  intro base s c d habreast
  rw [Cursor.isNamePart, Cursor.isNamePart, shared_startsName hL habreast,
    shared_startsKeywordCall hL habreast, habreast.isAfterDot hL, habreast.nextType hL]

theorem shared_isWordOr (hL : L.Lawful) {also : TokenType → Bool} :
    L.Shared (Cursor.isWordOr also) := by
  intro base s c d habreast
  rw [Cursor.isWordOr, Cursor.isWordOr, habreast.nextType hL]

theorem shared_isBareAlias (hL : L.Lawful) {a b : Token} (hab : L.token a b) :
    a.isBareAlias = b.isBareAlias := by
  unfold Token.isBareAlias
  rw [← hL.type hab]
  cases htype : a.type with
  | identifier =>
      have hisWord : a.type.isWord = true := congrArg TokenType.isWord htype
      have hword : Text.upper a.text = Text.upper b.text := hL.word hab hisWord
      simp only [Text.sameWord, hword]
  | _ => rfl

namespace Levels

variable {g g' : Level}

theorem identifierOf (h : L.Levels g g') {a b : Token} (hab : L.token a b) :
    L.Like (g.identifierOf a) (g'.identifierOf b) := by
  unfold Level.identifierOf
  rw [← h.lawful.type hab]
  by_cases hquoted : a.type = .quotedIdentifier
  · rw [if_pos hquoted, if_pos hquoted, Level.tag, Level.tag, h.settings, h.settings']
    exact h.lawful.escaped hab hquoted
  · rw [if_neg hquoted, if_neg hquoted]
    exact .name (h.lawful.text hab) h.tag

theorem namePart (h : L.Levels g g') : L.Kept L.Like g.namePart g'.namePart := by
  intro s
  refine .testThen (shared_isNamePart h.lawful) ?_ (.refuseFor h.lawful)
  refine .takePlain h.lawful (fun c type hφ => Cursor.not_isBracket_of_isNamePart hφ.2)
    fun a b hab => ?_
  exact .pure (h.identifierOf hab)

theorem namePath (h : L.Levels g g') : L.Kept L.Like g.namePath g'.namePath := by
  intro s
  refine (h.namePart s).bind fun first first' hfirst => ?_
  refine Kept.loop (fun path path' hpath t => ?_) (like_path.2 ⟨hfirst, .nil⟩) s
  refine .accept h.lawful rfl ?_ (.pure (.done hpath))
  refine (h.namePart t).bind fun name name' hname => ?_
  exact .pure (.again (Like.push hpath hname))

theorem aliasName (h : L.Levels g g') : L.Kept L.Like g.aliasName g'.aliasName := by
  intro s
  refine .accept h.lawful rfl ?_ ?_
  · have hplain := TokenType.not_isBracket_of_quoted
    refine .testThen (shared_isWordOr h.lawful) ?_ (.refuseFor h.lawful)
    refine .takePlain h.lawful
      (fun c type hφ => Cursor.not_isBracket_of_isWordOr hplain hφ.2) fun a b hab => ?_
    exact .pure (.some (h.identifierOf hab))
  · have hplain : ∀ token : Token, token.isBareAlias = true → token.type.isBracket = false :=
      fun _ => Token.not_isBracket_of_isBareAlias
    refine .testThen (.ofNext fun a b => shared_isBareAlias h.lawful) ?_ (.pure .none)
    refine .takePlain h.lawful
      (fun c type hφ => Cursor.not_isBracket_of_next hplain hφ.2) fun a b hab => ?_
    exact .pure (.some (h.identifierOf hab))

theorem collate (h : L.Levels g g') : L.Kept L.Like g.collate g'.collate := by
  intro s
  have hplain := TokenType.not_isBracket_of_quoted
  refine .testThen (shared_isWordOr h.lawful) ?_ (.refuseFor h.lawful)
  refine .takePlain h.lawful
    (fun c type hφ => Cursor.not_isBracket_of_isWordOr hplain hφ.2) fun a b hab => ?_
  exact .pure (.collate (h.lawful.text hab) h.tag)

theorem sigil (h : L.Levels g g') {type : TokenType} :
    L.Kept Eq (Level.sigil type) (Level.sigil type) := by
  intro s
  by_cases htype : type = .atSign
  · simp only [Level.sigil, if_pos htype]
    exact .accept h.lawful rfl (.pure rfl) (.pure rfl)
  · simp only [Level.sigil, if_neg htype]
    exact .pure rfl

theorem variableName (h : L.Levels g g') {s : List Bracket} {type : TokenType}
    (hplain : type.isBracket = false) :
    L.Reads (fun c => c.nextType = some type) L.Like s s g.variableName g'.variableName := by
  refine .takeOf h.lawful (fun _ => id) (Bracket.step_of_not_isBracket hplain s) fun a b hab => ?_
  rw [← h.lawful.type hab]
  refine (h.sigil s).bind_eq fun sign => ?_
  have hdigits : ∀ type : TokenType, decide (type = .number) = true → type.isBracket = false :=
    fun _ htype => of_decide_eq_true htype ▸ rfl
  refine .testThen (shared_isWordOr h.lawful) ?_ (.refuseFor h.lawful)
  refine .takePlain h.lawful
    (fun c type hφ => Cursor.not_isBracket_of_isWordOr hdigits hφ.2) fun a b hab => ?_
  exact .pure (.variable (h.lawful.constant sign) (h.lawful.text hab) h.tag)

end Levels

end Likeness

end SqlTree
