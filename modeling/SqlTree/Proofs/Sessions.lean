import SqlTree.Proofs.Likeness.Answer
import SqlTree.Proofs.Likeness.Diagonal
import SqlTree.Proofs.Outcome
import SqlTree.Proofs.Relabelling
import SqlTree.Proofs.Spending.Statement

/-!
# Several readings in good order

Readings may follow one another on one cursor, whether they succeed or fail.  Each of them leaves
the tokens alone and all nesting levels closed, and moves forward only.  To tell what happens on
the way, nesting levels are watched: a watched reading gives an alarm where a level is opened
above the cap or one is closed that is not open, and it gives the same as the reading itself
(`attempt_watched`).  Main statement: `orderly_attempts`.
-/

namespace SqlTree

open SqlTree.Parser

/-! ## Watched nesting levels -/

/-- Reads something one nesting level further down, with an alarm if as many levels as the cap are
open before, or none is open where the level is closed. -/
def Parser.watched {α : Type} (alarm : Error) (cap : Nat) (p : Parser α) : Parser α :=
  fun c =>
    if c.depth < cap then
      match p { c with depth := c.depth + 1 } with
      | .ok a d => if d.depth = 0 then .error alarm d else .ok a { d with depth := d.depth - 1 }
      | .error e d =>
          if d.depth = 0 then .error alarm d else .error e { d with depth := d.depth - 1 }
    else .error alarm c

namespace Level

/-- Reads a production with watched levels, and with an alarm if they run out below the cap. -/
def watch (alarm : Error) (settings : Settings) : Nat → Production → Parser Expr
  | 0, _ => fun c =>
    if c.depth < settings.maxDepth then .error alarm c
    else .error (.statement (.tooDeep settings.maxDepth)) c
  | levels + 1, production =>
    Parser.watched alarm settings.maxDepth (rule ⟨settings, watch alarm settings levels⟩ production)

/-- The level that a cursor stands on, with all levels below it watched. -/
def watchedAt (alarm : Error) (settings : Settings) (depth : Nat) : Level :=
  ⟨settings, watch alarm settings (settings.maxDepth - depth)⟩

end Level

namespace Settings

/-- Reads an expression or a statement with watched levels. -/
def readWatched (alarm : Error) (settings : Settings) : Reading → Parser Expr
  | .expression => fun c => (Level.watchedAt alarm settings c.depth).expression c
  | .statement => fun c => (Level.watchedAt alarm settings c.depth).statement c

/-- What a watched reading gives, and the cursor after it. -/
def attemptWatched (alarm : Error) (settings : Settings) (reading : Reading) (c : Cursor) :
    Except Error Expr × Cursor :=
  match settings.readWatched alarm reading c with
  | .ok e c => (.ok e, c)
  | .error e c => (.error e, c)

end Settings

/-! ## No alarm -/

variable {α β : Type} {alarm : Error}

/-- Below the cap a watched level is a level. -/
theorem Parser.Spends.watched {a : Allowance} {φ : Cursor → Prop} {k n cap : Nat} {p : Parser α}
    (hp : Spends ⟨a.depth + 1, a.levels - 1, a.items - 1⟩ (fun _ => True) k n p)
    (hcap : a.depth < cap) : Spends a φ (k + 1) (n + 1) (Parser.watched alarm cap p) := by
  intro c _ hdepth
  have hends := hp { c with depth := c.depth + 1 } trivial (congrArg (· + 1) hdepth)
  have hsame : Parser.watched alarm cap p c = Parser.nested p c := by
    unfold Parser.watched Parser.nested
    rw [if_pos (hdepth ▸ hcap)]
    generalize p { c with depth := c.depth + 1 } = r at hends
    have hopen : ∀ {d : Cursor} {tokens : List Token},
        Cursor.Passes { c with depth := c.depth + 1 } tokens d → d.depth ≠ 0 :=
      fun hpasses => hpasses.depth ▸ Nat.succ_ne_zero c.depth
    cases hends with
    | ok hpasses => exact if_neg (hopen hpasses)
    | error hpasses => exact if_neg (hopen hpasses)
  rw [hsame]
  exact (Spends.nested hp).ends hdepth

/-- As many levels as the cap leaves are enough, and none of them gives an alarm. -/
theorem Level.keeps_watch (alarm : Error) (settings : Settings) {levels : Nat} {a : Allowance}
    (hdepth : a.depth + levels = settings.maxDepth) (hlevels : a.levels ≤ levels)
    (hitems : a.items ≤ settings.maxIterations + 1) :
    Level.KeepsTo ⟨settings, Level.watch alarm settings levels⟩ a := by
  induction levels generalizing a with
  | zero =>
      refine ⟨fun production k hk c _ hc => ?_, hitems⟩
      have hpaid : 1 ≤ k := Nat.le_trans production.cost_pos hk.le
      have htooDeep : Spends a (fun _ => True) k (k + 1)
          (throw (.statement (.tooDeep settings.maxDepth)) : Parser Expr) := .tooDeep (by omega)
      change Ends a c k (k + 1) (Level.watch alarm settings 0 production c)
      unfold Level.watch
      rw [if_neg (by omega)]
      exact htooDeep.ends hc
  | succ levels ih =>
      refine ⟨fun production k hk => ?_, hitems⟩
      obtain ⟨k, rfl⟩ := Nat.exists_eq_add_of_le' (Nat.le_trans production.cost_pos hk.le)
      have hbelow : Level.KeepsTo ⟨settings, Level.watch alarm settings levels⟩
          ⟨a.depth + 1, a.levels - 1, a.items - 1⟩ := by
        apply ih
        · dsimp only
          omega
        · exact Nat.sub_le_iff_le_add.2 hlevels
        · exact Nat.le_trans (Nat.sub_le _ _) hitems
      exact (hbelow.rule (Nat.sub_le_iff_le_add.2 hitems) production).watched (by omega)

/-- A watched reading ends like one that is not watched. -/
theorem Settings.ends_readWatched (alarm : Error) (settings : Settings) (reading : Reading)
    {c : Cursor} (hdepth : c.depth ≤ settings.maxDepth) :
    Ends (settings.allowance c.depth) c 1 2 (settings.readWatched alarm reading c) := by
  have hkeeps : (Level.watchedAt alarm settings c.depth).KeepsTo (settings.allowance c.depth) :=
    Level.keeps_watch alarm settings (Nat.add_sub_cancel' hdepth) (Nat.le_refl _) (Nat.le_refl _)
  cases reading with
  | expression => exact hkeeps.expression.ends rfl
  | statement => exact hkeeps.statement.ends rfl

/-! ## The same answer -/

namespace Likeness

variable {settings : Settings}

/-- A reading beside the same one with watched levels; an alarm may part them. -/
def watching (alarm : Error) (settings : Settings) : Likeness :=
  sameTokens settings settings (· = alarm)

theorem lawful_watching (alarm : Error) (settings : Settings) : (watching alarm settings).Lawful :=
  lawful_sameTokens rfl rfl (.inl rfl) (.inl rfl)

/-- A level beside a watched one. -/
theorem Kept.watched {V : α → β → Prop} {p : Parser α} {q : Parser β} {cap : Nat}
    (hp : (watching alarm settings).Kept V p q) :
    (watching alarm settings).Kept V (Parser.nested p) (Parser.watched alarm cap q) := by
  intro s base c d habreast hφ
  have hagree := hp.nested s base c d habreast hφ
  unfold Parser.watched
  by_cases hcap : d.depth < cap
  · rw [if_pos hcap]
    unfold Parser.nested at hagree ⊢
    generalize q { d with depth := d.depth + 1 } = y at hagree
    cases y with
    | ok b d' =>
        by_cases hopen : d'.depth = 0
        · dsimp only
          rw [if_pos hopen]
          exact .second rfl
        · dsimp only
          rw [if_neg hopen]
          exact hagree
    | error f d' =>
        by_cases hopen : d'.depth = 0
        · dsimp only
          rw [if_pos hopen]
          exact .second rfl
        · dsimp only
          rw [if_neg hopen]
          exact hagree
  · rw [if_neg hcap]
    exact .second rfl

theorem kept_watch (alarm : Error) (settings : Settings) (levels : Nat) (production : Production) :
    (watching alarm settings).Kept (watching alarm settings).Like
      (Level.produce settings levels production)
      (Level.watch alarm settings levels production) := by
  induction levels generalizing production with
  | zero =>
      intro s base c d habreast _
      change (watching alarm settings).Agree _
        (.error (.statement (.tooDeep settings.maxDepth)) c) _
      unfold Level.watch
      split
      case isTrue => exact .second rfl
      case isFalse => exact .error rfl habreast.toBeside
  | succ levels ih =>
      have hlevels : (watching alarm settings).Levels ⟨settings, Level.produce settings levels⟩
          ⟨settings, Level.watch alarm settings levels⟩ :=
        ⟨lawful_watching alarm settings, rfl, rfl, ih⟩
      exact Kept.watched (hlevels.rule production)

theorem agree_readWatched (alarm : Error) (settings : Settings) (reading : Reading) (c : Cursor) :
    (watching alarm settings).Agree
      (fun a b c d => (watching alarm settings).Like a b ∧ (watching alarm settings).Beside c d)
      (settings.read reading c) (settings.readWatched alarm reading c) := by
  have hlevels : (watching alarm settings).Levels (Level.atDepth settings c.depth)
      (Level.watchedAt alarm settings c.depth) :=
    ⟨lawful_watching alarm settings, rfl, rfl, kept_watch alarm settings _⟩
  cases reading with
  | expression => exact Kept.agree hlevels.expression (beside_self c)
  | statement => exact Kept.agree hlevels.statement (beside_self c)

end Likeness

/-- An error that is no alarm, whatever the alarm says. -/
theorem Error.Within.ne_stated {a : Allowance} {tokens : Nat} {e : Error} (h : e.Within a tokens)
    (message : String) : e ≠ .internal (.stated message) := by
  intro he
  obtain ⟨kind, hkind⟩ := h.internal _ he
  cases hkind

namespace Settings

variable {settings : Settings} {reading : Reading} {c : Cursor}

/-- Watching the nesting levels changes nothing, so no alarm is ever given. -/
theorem attempt_watched (message : String) (hdepth : c.depth ≤ settings.maxDepth) :
    settings.attemptWatched (.internal (.stated message)) reading c = settings.attempt reading c ∧
      (settings.attempt reading c).1 ≠ .error (.internal (.stated message)) := by
  have hagree := Likeness.agree_readWatched (.internal (.stated message)) settings reading c
  have hends := settings.ends_read reading c
  have hwatched := settings.ends_readWatched (.internal (.stated message)) reading hdepth
  unfold attemptWatched attempt
  generalize settings.read reading c = x,
    settings.readWatched (.internal (.stated message)) reading c = y at hagree hends hwatched
  cases hagree with
  | @ok a b _ _ h =>
      have hlike : a.relabel {} = b.relabel {} := h.1
      rw [a.relabel_same, b.relabel_same] at hlike
      rw [hlike, h.2.eq_of_sameTokens]
      exact ⟨rfl, nofun⟩
  | error h hbeside =>
      rw [show _ = _ from h, hbeside.eq_of_sameTokens]
      cases hwatched with
      | error hpasses hwithin =>
          refine ⟨rfl, fun hstated => ?_⟩
          exact hwithin.ne_stated message (Except.error.inj hstated)
  | first h =>
      cases hends with
      | error hpasses hwithin => exact (hwithin.ne_stated message h).elim
  | second h =>
      cases hwatched with
      | error hpasses hwithin => exact (hwithin.ne_stated message h).elim

end Settings

/-! ## Sessions -/

/-- What a reading that starts on the outermost level with the given tokens does in good order. -/
structure Orderly (settings : Settings) (tokens : List Token) (reading : Reading) (c : Cursor)
    (answer : Except Error Expr × Cursor) : Prop where
  /-- The tokens stay as they are. -/
  unchanged : answer.2.tokens = tokens
  /-- All levels are closed again. -/
  closed : answer.2.depth = 0
  /-- The reading goes forward, -/
  forward : c.position ≤ answer.2.position
  /-- and not past the end. -/
  inside : answer.2.position ≤ tokens.length
  /-- On the way no level is opened above the cap, and none closed that is not open. -/
  watched : ∀ message,
    settings.attemptWatched (.internal (.stated message)) reading c = answer ∧
      answer.1 ≠ .error (.internal (.stated message))
  /-- No token is taken where none is left. -/
  taken : answer.1 ≠ .error (.internal .pastEnd)
  /-- An expression takes a token at least. -/
  expression : reading = .expression → answer.1.isOk → c.position < answer.2.position
  /-- A statement takes all tokens. -/
  statement : reading = .statement → answer.1.isOk → answer.2.position = tokens.length

/-- Each reading starts where the one before it stopped, and its answer is as it should be. -/
inductive Session (P : Reading → Cursor → Except Error Expr × Cursor → Prop) :
    List Reading → Cursor → List (Except Error Expr × Cursor) → Prop where
  | nil {c : Cursor} : Session P [] c []
  | cons {reading : Reading} {readings : List Reading} {c : Cursor}
      {answer : Except Error Expr × Cursor} {answers : List (Except Error Expr × Cursor)}
      (first : P reading c answer) (rest : Session P readings answer.2 answers) :
      Session P (reading :: readings) c (answer :: answers)

/-- A place among tokens is not past their end. -/
theorem Cursor.position_le_length (c : Cursor) : c.position ≤ c.tokens.length := by
  simp [position, tokens]

theorem Cursor.Passes.position_eq {c d : Cursor} {tokens : List Token} (h : c.Passes tokens d) :
    d.position = c.position + tokens.length := by
  rw [position, h.behind, List.length_append, List.length_reverse, Nat.add_comm]
  rfl

/-- One reading from the outermost level is orderly. -/
theorem Settings.orderly_attempt (settings : Settings) (reading : Reading) {c : Cursor}
    (hdepth : c.depth = 0) :
    Orderly settings c.tokens reading c (settings.attempt reading c) := by
  have hends := settings.ends_read reading c
  have hwatched : ∀ message,
      settings.attemptWatched (.internal (.stated message)) reading c = settings.attempt reading c ∧
        (settings.attempt reading c).1 ≠ .error (.internal (.stated message)) :=
    fun message => attempt_watched message (hdepth ▸ Nat.zero_le _)
  have hall : ∀ e d, settings.read reading c = .ok e d → reading = .statement → d.ahead = [] := by
    rintro e d hread rfl
    exact (Level.atDepth settings c.depth).leads_statement c e d trivial hread
  unfold attempt at hwatched ⊢
  generalize settings.read reading c = r at hends hwatched hall
  cases hends with
  | @ok e d taken hpasses hspent =>
      have hposition := hpasses.position_eq
      refine ⟨hpasses.tokens_eq, hpasses.depth.trans hdepth, ?_, ?_, hwatched, ?_, ?_, ?_⟩
      · exact Nat.le.intro hposition.symm
      · exact hpasses.tokens_eq ▸ d.position_le_length
      · intro hpast
        cases hpast
      · intro _ _
        change c.position < d.position
        omega
      · intro hstatement _
        rw [← hpasses.tokens_eq, Cursor.tokens, hall e d rfl hstatement, List.append_nil,
          List.length_reverse]
        rfl
  | @error e d taken hpasses hwithin =>
      have hfailed : ¬(Except.error e : Except Error Expr).isOk = true := Bool.false_ne_true
      refine ⟨hpasses.tokens_eq, hpasses.depth.trans hdepth, ?_, ?_, hwatched, fun hpast => ?_,
        fun _ hok => (hfailed hok).elim, fun _ hok => (hfailed hok).elim⟩
      · exact Nat.le.intro hpasses.position_eq.symm
      · exact hpasses.tokens_eq ▸ d.position_le_length
      · obtain ⟨kind, hkind⟩ := hwithin.internal _ (Except.error.inj hpast)
        cases hkind

theorem Settings.session_attempts (settings : Settings) (readings : List Reading) {c : Cursor}
    (hdepth : c.depth = 0) :
    Session (Orderly settings c.tokens) readings c (settings.attempts readings c) := by
  induction readings generalizing c with
  | nil => exact .nil
  | cons reading readings ih =>
      have hone := settings.orderly_attempt reading hdepth
      refine .cons hone ?_
      rw [← hone.unchanged]
      exact ih hone.closed

/-- Whatever is read from a list of tokens, one reading after another, is orderly each time. -/
theorem orderly_attempts (settings : Settings) (tokens : List Token) (readings : List Reading) :
    Session (Orderly settings tokens) readings (Cursor.start tokens)
      (settings.attempts readings (Cursor.start tokens)) :=
  settings.session_attempts readings (c := Cursor.start tokens) rfl

end SqlTree
