import Mathlib.Data.List.Basic
import SqlTree.Grammar.Statement
import SqlTree.Proofs.Keywords

/-!
# Chains of joins

Sources are read as a chain: a first source and, behind it, sources with the sign of a join before
each of them and a condition behind it where the join has one.  Where all of these stand is told
by `Level.JoinLinks`, one link after the other; what is read from them is the tree that joins the
sources from the left.  Nothing else is read as sources.  Main statement:
`Settings.sources_eq_ok_iff`.
-/

namespace SqlTree

open SqlTree.Parser

/-! ## Links of a chain -/

/-- The ways to write a join that has a condition. -/
def JoinKind.spellings : JoinKind → List (List Keyword)
  | .inner => [[.JOIN], [.INNER, .JOIN]]
  | .left => [[.LEFT, .JOIN], [.LEFT, .OUTER, .JOIN]]
  | .right => [[.RIGHT, .JOIN], [.RIGHT, .OUTER, .JOIN]]
  | .full => [[.FULL, .JOIN], [.FULL, .OUTER, .JOIN]]
  | .cross => []

def Cursor.NoJoin (c : Cursor) : Prop :=
  c.nextType ≠ some .comma ∧
    ∀ word ∈ [Keyword.CROSS, .JOIN, .INNER, .LEFT, .RIGHT, .FULL], c.nextType ≠ some (.keyword word)

instance (c : Cursor) : Decidable c.NoJoin :=
  inferInstanceAs (Decidable (_ ≠ _ ∧ ∀ word ∈ _, _ ≠ _))

/-- A source that is joined to those on its left. -/
structure JoinedSource where
  source : Expr
  kind : JoinKind
  condition : Option Expr
  isComma : Bool

def JoinedSource.after (tag : Tag) (left : Expr) (right : JoinedSource) : Expr :=
  .node (.joinTable left right.source right.kind right.condition right.isComma tag)

def Expr.joins (tag : Tag) (first : Expr) (more : List JoinedSource) : Expr :=
  more.foldl (JoinedSource.after tag) first

namespace Level

/-- One more source, with the sign of its join before it.  A join that is neither a comma nor a
cross join has a condition behind its source. -/
inductive JoinLink (g : Level) (c : Cursor) : JoinedSource → Cursor → Prop where
  | comma {d : Cursor} {source : Expr} (hcomma : c.nextType = some .comma)
      (hsource : g.below .source c.step = .ok source d) :
          JoinLink g c ⟨source, .inner, none, true⟩ d
  | cross {c' d : Cursor} {source : Expr} (hjoin : c.PassesWords [.CROSS, .JOIN] c')
      (hsource : g.below .source c' = .ok source d) : JoinLink g c ⟨source, .cross, none, false⟩ d
  | conditional {c' d' d : Cursor} {kind : JoinKind} {words : List Keyword}
      {source condition : Expr} (hwords : words ∈ kind.spellings) (hjoin : c.PassesWords words c')
      (hsource : g.below .source c' = .ok source d') (hon : d'.nextType = some (.keyword .ON))
      (hcondition : g.expression d'.step = .ok condition d) :
      JoinLink g c ⟨source, kind, some condition, false⟩ d

/-- Sources joined one after the other, up to a place where no further join starts. -/
inductive JoinLinks (g : Level) : Cursor → List JoinedSource → Cursor → Prop where
  | done {c : Cursor} (hend : c.NoJoin) : JoinLinks g c [] c
  | more {c c' d : Cursor} {right : JoinedSource} {more : List JoinedSource}
      (hlink : g.JoinLink c right c') (hmore : JoinLinks g c' more d) :
      JoinLinks g c (right :: more) d

/-! ## Reading a link -/

variable {g : Level} {c c' d : Cursor}

section Words

variable {kind : JoinKind} {word : Keyword} {words : List Keyword}

theorem joinKind_of_join (hjoin : c.nextType = some (.keyword .JOIN)) :
    joinKind c = .ok (some .inner) c := by
  have hpeek : peekType c = .ok c.nextType c := rfl
  unfold joinKind
  rw [bind_of_ok hpeek, hjoin]
  rfl

theorem joinKind_of_inner (hinner : c.nextType = some (.keyword .INNER)) :
    joinKind c = .ok (some .inner) c.step := by
  have hpeek : peekType c = .ok c.nextType c := rfl
  obtain ⟨token, tokens, hahead, -⟩ := Cursor.exists_ahead_of_nextType hinner
  unfold joinKind
  rw [bind_of_ok hpeek, hinner]
  exact bind_of_ok (take_of_ahead hahead) _

/-- Behind the first word of an outer join `OUTER` may follow. -/
theorem joinKind_of_outer (hnext : c.nextType = some (.keyword word))
    (hkind : outerJoin? (.keyword word) = some kind) :
    joinKind c = .ok (some kind)
      (if c.step.nextType = some (.keyword .OUTER) then c.step.step else c.step) := by
  obtain ⟨token, tokens, hahead, -⟩ := Cursor.exists_ahead_of_nextType hnext
  have hwords : joinKind c =
      (take >>= fun _ => acceptKeyword .OUTER >>= fun _ => pure (some kind)) c := by
    have hpeek : peekType c = .ok c.nextType c := rfl
    unfold joinKind
    rw [bind_of_ok hpeek, hnext]
    cases word <;> cases hkind <;> rfl
  rw [hwords, bind_of_ok (take_of_ahead hahead)]
  by_cases houter : c.step.nextType = some (.keyword .OUTER)
  · rw [if_pos houter]
    exact bind_of_ok (accept_of_next houter) _
  · rw [if_neg houter]
    exact bind_of_ok (accept_of_not_next houter) _

theorem joinKind_of_no_word
    (hnone : ∀ word ∈ [Keyword.JOIN, .INNER, .LEFT, .RIGHT, .FULL],
      c.nextType ≠ some (.keyword word)) :
    joinKind c = .ok none c := by
  have hpeek : peekType c = .ok c.nextType c := rfl
  unfold joinKind
  rw [bind_of_ok hpeek]
  cases hnext : c.nextType with
  | none => rfl
  | some type =>
      rw [hnext] at hnone
      cases type with
      | keyword word => cases word <;> first | rfl | exact absurd rfl (hnone _ (by decide))
      | _ => rfl

theorem exists_word_of_joinKind (hread : joinKind c = .ok (some kind) d) :
    ∃ word ∈ [Keyword.JOIN, .INNER, .LEFT, .RIGHT, .FULL], c.nextType = some (.keyword word) := by
  by_contra hnone
  rw [joinKind_of_no_word fun word hword hnext => hnone ⟨word, hword, hnext⟩] at hread
  cases hread

theorem noWord_of_joinKind (hread : joinKind c = .ok none d) :
    (∀ word ∈ [Keyword.JOIN, .INNER, .LEFT, .RIGHT, .FULL], c.nextType ≠ some (.keyword word)) ∧
      d = c := by
  have hnone : ∀ word ∈ [Keyword.JOIN, .INNER, .LEFT, .RIGHT, .FULL],
      c.nextType ≠ some (.keyword word) := by
    intro word hword hnext
    simp only [List.mem_cons, List.not_mem_nil, or_false] at hword
    rcases hword with rfl | rfl | rfl | rfl | rfl
    · rw [joinKind_of_join hnext] at hread
      cases hread
    · rw [joinKind_of_inner hnext] at hread
      cases hread
    all_goals
      rw [joinKind_of_outer hnext rfl] at hread
      cases hread
  rw [joinKind_of_no_word hnone] at hread
  cases hread
  exact ⟨hnone, rfl⟩

theorem spellings_of_outer (hkind : outerJoin? (.keyword word) = some kind) :
    kind.spellings = [[word, .JOIN], [word, .OUTER, .JOIN]] := by
  cases word <;> cases hkind <;> rfl

theorem exists_spelling_of_outer {kind' : JoinKind} (hnext : c.nextType = some (.keyword word))
    (hkind : outerJoin? (.keyword word) = some kind) (hread : joinKind c = .ok (some kind') c')
    (hjoin : c'.PassesWords [.JOIN] d) : ∃ words ∈ kind'.spellings, c.PassesWords words d := by
  rw [joinKind_of_outer hnext hkind, EStateM.Result.ok.injEq, Option.some.injEq] at hread
  obtain ⟨rfl, rfl⟩ := hread
  rw [spellings_of_outer hkind]
  by_cases houter : c.step.nextType = some (.keyword .OUTER)
  · rw [if_pos houter] at hjoin
    exact ⟨_, List.mem_cons_of_mem _ List.mem_cons_self, .cons hnext (.cons houter hjoin)⟩
  · rw [if_neg houter] at hjoin
    exact ⟨_, List.mem_cons_self, .cons hnext hjoin⟩

theorem joinKind_of_spelling_of_outer (word : Keyword)
    (hkind : outerJoin? (.keyword word) = some kind)
    (hwords : words ∈ kind.spellings) (hpasses : c.PassesWords words d) :
    ∃ c', joinKind c = .ok (some kind) c' ∧ c'.PassesWords [.JOIN] d := by
  rw [spellings_of_outer hkind] at hwords
  rcases List.mem_pair.1 hwords with rfl | rfl
  · refine ⟨_, joinKind_of_outer hpasses.head_tail.1 hkind, ?_⟩
    rw [if_neg (hpasses.tail.head_tail.1 ▸ nofun)]
    exact hpasses.tail
  · refine ⟨_, joinKind_of_outer hpasses.head_tail.1 hkind, ?_⟩
    rw [if_pos hpasses.tail.head_tail.1]
    exact hpasses.tail.tail

/-- The words of a join that needs a condition are read up to `JOIN`. -/
theorem joinKind_eq_some_iff :
    (∃ c', joinKind c = .ok (some kind) c' ∧ c'.PassesWords [.JOIN] d) ↔
      ∃ words ∈ kind.spellings, c.PassesWords words d := by
  constructor
  · rintro ⟨c', hkind, hjoin⟩
    obtain ⟨word, hword, hnext⟩ := exists_word_of_joinKind hkind
    simp only [List.mem_cons, List.not_mem_nil, or_false] at hword
    rcases hword with rfl | rfl | rfl | rfl | rfl
    · rw [joinKind_of_join hnext] at hkind
      cases hkind
      exact ⟨_, List.mem_cons_self, hjoin⟩
    · rw [joinKind_of_inner hnext] at hkind
      cases hkind
      exact ⟨_, List.mem_cons_of_mem _ List.mem_cons_self, .cons hnext hjoin⟩
    · exact exists_spelling_of_outer hnext rfl hkind hjoin
    · exact exists_spelling_of_outer hnext rfl hkind hjoin
    · exact exists_spelling_of_outer hnext rfl hkind hjoin
  · rintro ⟨words, hwords, hpasses⟩
    cases kind with
    | inner =>
        rcases List.mem_pair.1 hwords with rfl | rfl
        · exact ⟨c, joinKind_of_join hpasses.head_tail.1, hpasses⟩
        · exact ⟨_, joinKind_of_inner hpasses.head_tail.1, hpasses.tail⟩
    | left => exact joinKind_of_spelling_of_outer .LEFT rfl hwords hpasses
    | right => exact joinKind_of_spelling_of_outer .RIGHT rfl hwords hpasses
    | full => exact joinKind_of_spelling_of_outer .FULL rfl hwords hpasses
    | cross => cases hwords

end Words

section Link

variable {left tree : Expr} {right : JoinedSource} {more : List JoinedSource}

theorem join_of_noJoin (hend : c.NoJoin) : g.join left c = .ok none c := by
  obtain ⟨hcomma, hwords⟩ := hend
  obtain ⟨hcross, hwords⟩ := List.forall_mem_cons.1 hwords
  have hcross : acceptKeyword .CROSS c = .ok false c := accept_of_not_next hcross
  unfold join
  rw [branch_of_false (accept_of_not_next hcomma), branch_of_false hcross,
    bind_of_ok (joinKind_of_no_word hwords)]
  rfl

theorem join_of_link (hlink : g.JoinLink c right d) :
    g.join left c = .ok (some (right.after g.tag left)) d := by
  unfold join
  cases hlink with
  | comma hcomma hsource =>
      rw [branch_of_true (accept_of_next hcomma), bind_of_ok hsource]
      rfl
  | cross hjoin hsource =>
      have hcomma : c.nextType ≠ some .comma := hjoin.head_tail.1 ▸ nofun
      obtain ⟨token, hexpect⟩ := expectKeyword_of_next hjoin.tail.head_tail.1
      obtain rfl := hjoin.tail.tail.eq_of_nil
      rw [branch_of_false (accept_of_not_next hcomma), branch_of_true hjoin.take,
        bind_of_ok hexpect, bind_of_ok hsource]
      rfl
  | conditional hwords hjoin hsource hon hcondition =>
      obtain ⟨c', hkind, hjoin⟩ := joinKind_eq_some_iff.2 ⟨_, hwords, hjoin⟩
      obtain ⟨word, hword, hnext⟩ := exists_word_of_joinKind hkind
      have hcomma : c.nextType ≠ some .comma := hnext ▸ nofun
      have hcross : acceptKeyword .CROSS c = .ok false c := by
        refine accept_of_not_next ?_
        rw [hnext, ne_eq, Option.some.injEq, TokenType.keyword.injEq]
        rintro rfl
        exact absurd hword (by decide)
      obtain ⟨token, hexpect⟩ := expectKeyword_of_next hjoin.head_tail.1
      obtain ⟨on, hon⟩ := expectKeyword_of_next hon
      obtain rfl := hjoin.tail.eq_of_nil
      rw [branch_of_false (accept_of_not_next hcomma), branch_of_false hcross, bind_of_ok hkind]
      dsimp only
      rw [bind_of_ok hexpect, bind_of_ok hsource, bind_of_ok hon, bind_of_ok hcondition]
      rfl

/-- Either no join starts and nothing is taken, or a link is read. -/
theorem noJoin_or_link_of_join {joined : Option Expr} (hread : g.join left c = .ok joined d) :
    (joined = none ∧ c.NoJoin ∧ d = c) ∨
      ∃ right, joined = some (right.after g.tag left) ∧ g.JoinLink c right d := by
  unfold join at hread
  by_cases hcomma : c.nextType = some .comma
  · rw [branch_of_true (accept_of_next hcomma)] at hread
    obtain ⟨source, d', hsource, hread⟩ := bind_eq_ok.1 hread
    cases hread
    exact .inr ⟨_, rfl, .comma hcomma hsource⟩
  rw [branch_of_false (accept_of_not_next hcomma)] at hread
  by_cases hcross : c.nextType = some (.keyword .CROSS)
  · have haccept : acceptKeyword .CROSS c = .ok true c.step := accept_of_next hcross
    rw [branch_of_true haccept] at hread
    obtain ⟨token, c', hexpect, hread⟩ := bind_eq_ok.1 hread
    obtain ⟨source, d', hsource, hread⟩ := bind_eq_ok.1 hread
    cases hread
    exact .inr ⟨_, rfl, .cross (.cons hcross (passesWords_of_expectKeyword hexpect)) hsource⟩
  have haccept : acceptKeyword .CROSS c = .ok false c := accept_of_not_next hcross
  rw [branch_of_false haccept] at hread
  obtain ⟨kind, c', hkind, hread⟩ := bind_eq_ok.1 hread
  cases kind with
  | none =>
      cases hread
      obtain ⟨hwords, rfl⟩ := noWord_of_joinKind hkind
      exact .inl ⟨rfl, ⟨hcomma, List.forall_mem_cons.2 ⟨hcross, hwords⟩⟩, rfl⟩
  | some kind =>
      obtain ⟨token, b, hexpect, hread⟩ := bind_eq_ok.1 hread
      obtain ⟨source, b', hsource, hread⟩ := bind_eq_ok.1 hread
      obtain ⟨on, d', hon, hread⟩ := bind_eq_ok.1 hread
      obtain ⟨condition, _, hcondition, hread⟩ := bind_eq_ok.1 hread
      cases hread
      obtain ⟨words, hwords, hjoin⟩ :=
        joinKind_eq_some_iff.1 ⟨c', hkind, passesWords_of_expectKeyword hexpect⟩
      have hon := passesWords_of_expectKeyword hon
      obtain rfl := hon.tail.eq_of_nil
      exact .inr ⟨_, rfl, .conditional hwords hjoin hsource hon.head_tail.1 hcondition⟩

/-! ## Reading a chain -/

/-- Each link is one turn, and a last one sees that no further join starts. -/
theorem joinsFrom_of_links (h : g.JoinLinks c more d) {n : Nat} (hcap : more.length < n) :
    g.joinsFrom n left c = .ok (Expr.joins g.tag left more) d := by
  induction h generalizing left n with
  | done hend =>
      obtain ⟨n, rfl⟩ := Nat.exists_eq_add_of_lt hcap
      rw [joinsFrom, bind_of_ok (join_of_noJoin hend)]
      rfl
  | more hlink _ ih =>
      obtain ⟨n, rfl⟩ : ∃ k, n = k + 1 := ⟨n - 1, by omega⟩
      rw [joinsFrom, bind_of_ok (join_of_link hlink)]
      exact ih (Nat.lt_of_succ_lt_succ hcap)

theorem links_of_joinsFrom {n : Nat} (hread : g.joinsFrom n left c = .ok tree d) :
    ∃ more, g.JoinLinks c more d ∧ more.length < n ∧ tree = Expr.joins g.tag left more := by
  induction n generalizing left c with
  | zero => cases hread
  | succ n ih =>
      rw [joinsFrom] at hread
      obtain ⟨joined, c', hjoin, hfurther⟩ := bind_eq_ok.1 hread
      rcases noJoin_or_link_of_join hjoin with ⟨rfl, hend, rfl⟩ | ⟨right, rfl, hlink⟩
      · cases hfurther
        exact ⟨[], .done hend, Nat.succ_pos n, rfl⟩
      · obtain ⟨more, hmore, hcap, htree⟩ := ih hfurther
        exact ⟨right :: more, .more hlink hmore, Nat.succ_lt_succ hcap, htree⟩

end Link

end Level

namespace Settings

/-- Sources are read just where a first source is followed by a chain of joins with fewer links
than a list may have items, up to a place where no further join starts.  They are joined from the
left, each with the kind, the condition and the sign of its own link. -/
theorem sources_eq_ok_iff (settings : Settings) (c d : Cursor) (tree : Expr) :
    (Level.atDepth settings c.depth).sources c = .ok tree d ↔
      ∃ first c' more, (Level.atDepth settings c.depth).below .source c = .ok first c' ∧
        (Level.atDepth settings c.depth).JoinLinks c' more d ∧
        more.length < settings.maxIterations ∧ tree = Expr.joins settings.tag first more := by
  unfold Level.sources
  rw [bind_eq_ok]
  constructor
  · rintro ⟨first, c', hfirst, hread⟩
    obtain ⟨more, hmore, hcap, htree⟩ := Level.links_of_joinsFrom hread
    exact ⟨first, c', more, hfirst, hmore, hcap, htree⟩
  · rintro ⟨first, c', more, hfirst, hmore, hcap, rfl⟩
    exact ⟨first, c', hfirst, Level.joinsFrom_of_links hmore hcap⟩

/-- The tokens of `a , b CROSS JOIN c LEFT OUTER JOIN d ON 1 JOIN e ON 2 , f`. -/
def mixedJoins : List Token :=
  [.unplaced .identifier "a", .unplaced .comma ",", .unplaced .identifier "b",
    .unplaced (.keyword .CROSS) "CROSS", .unplaced (.keyword .JOIN) "JOIN",
    .unplaced .identifier "c", .unplaced (.keyword .LEFT) "LEFT",
    .unplaced (.keyword .OUTER) "OUTER", .unplaced (.keyword .JOIN) "JOIN",
    .unplaced .identifier "d", .unplaced (.keyword .ON) "ON", .unplaced .number "1",
    .unplaced (.keyword .JOIN) "JOIN", .unplaced .identifier "e", .unplaced (.keyword .ON) "ON",
    .unplaced .number "2", .unplaced .comma ",", .unplaced .identifier "f"]

/-- The cursor behind some of these tokens. -/
def mixedJoinsBehind (n : Nat) : Cursor :=
  ⟨(mixedJoins.take n).reverse, mixedJoins.drop n, 0⟩

/-- Commas and joins with and without conditions may be mixed. -/
theorem sources_eq_ok_iff_mixedJoins :
    let settings := Dialect.postgreSql.settings
    let g := Level.atDepth settings 0
    ∃ first more, g.JoinLinks (mixedJoinsBehind 1) more (mixedJoinsBehind 18) ∧
      more.map (fun right => (right.kind, right.condition.isSome, right.isComma)) =
        [(.inner, false, true), (.cross, false, false), (.left, true, false), (.inner, true, false),
          (.inner, false, true)] ∧
      g.sources (.start mixedJoins) =
        .ok (Expr.joins settings.tag first more) (mixedJoinsBehind 18) := by
  intro settings g
  obtain ⟨a, ha⟩ : ∃ a, g.below .source (.start mixedJoins) = .ok a (mixedJoinsBehind 1) := ⟨_, rfl⟩
  obtain ⟨b, hb⟩ : ∃ b, g.below .source (mixedJoinsBehind 2) = .ok b (mixedJoinsBehind 3) :=
    ⟨_, rfl⟩
  obtain ⟨c, hc⟩ : ∃ c, g.below .source (mixedJoinsBehind 5) = .ok c (mixedJoinsBehind 6) :=
    ⟨_, rfl⟩
  obtain ⟨d, hd⟩ : ∃ d, g.below .source (mixedJoinsBehind 9) = .ok d (mixedJoinsBehind 10) :=
    ⟨_, rfl⟩
  obtain ⟨one, hone⟩ : ∃ one, g.expression (mixedJoinsBehind 11) = .ok one (mixedJoinsBehind 12) :=
    ⟨_, rfl⟩
  obtain ⟨e, he⟩ : ∃ e, g.below .source (mixedJoinsBehind 13) = .ok e (mixedJoinsBehind 14) :=
    ⟨_, rfl⟩
  obtain ⟨two, htwo⟩ : ∃ two, g.expression (mixedJoinsBehind 15) = .ok two (mixedJoinsBehind 16) :=
    ⟨_, rfl⟩
  obtain ⟨f, hf⟩ : ∃ f, g.below .source (mixedJoinsBehind 17) = .ok f (mixedJoinsBehind 18) :=
    ⟨_, rfl⟩
  have hcross : (mixedJoinsBehind 3).PassesWords [.CROSS, .JOIN] (mixedJoinsBehind 5) :=
    .cons rfl (.cons rfl (.nil _))
  have hleft : (mixedJoinsBehind 6).PassesWords [.LEFT, .OUTER, .JOIN] (mixedJoinsBehind 9) :=
    .cons rfl (.cons rfl (.cons rfl (.nil _)))
  have hjoin : (mixedJoinsBehind 12).PassesWords [.JOIN] (mixedJoinsBehind 13) := .cons rfl (.nil _)
  have hlinks : g.JoinLinks (mixedJoinsBehind 1)
      [⟨b, .inner, none, true⟩, ⟨c, .cross, none, false⟩, ⟨d, .left, some one, false⟩,
        ⟨e, .inner, some two, false⟩, ⟨f, .inner, none, true⟩] (mixedJoinsBehind 18) :=
    .more (.comma rfl hb) <| .more (.cross hcross hc) <|
      .more (.conditional (by decide) hleft hd rfl hone) <|
        .more (.conditional (by decide) hjoin he rfl htwo) <| .more (.comma rfl hf) <|
          .done (by decide)
  have hcap : 5 < settings.maxIterations := by decide
  exact ⟨a, _, hlinks, rfl,
    (sources_eq_ok_iff settings (.start mixedJoins) _ _).2 ⟨a, _, _, ha, hlinks, hcap, rfl⟩⟩

end Settings

end SqlTree
