import SqlTree.Proofs.Likeness.Answer
import SqlTree.Proofs.Likeness.Diagonal
import SqlTree.Proofs.Relabelling
import SqlTree.Proofs.Spending.Statement

/-!
# Caps are transparent

The caps on nesting levels and on the items of lists guard against hostile input and do nothing
else.  Caps above the number of tokens are never met, since levels and items cost a token each;
and readings with different caps give the same as long as neither of them meets a cap.  The lexer
takes at most as many steps as a list may have items by default, so the default cap on items is
never met.  Main statement: `caps_transparent`.
-/

namespace SqlTree

open SqlTree.Parser

/-- Whether an error says that a cap of the grammar was met. -/
def Error.IsCap : Error → Prop
  | .statement (.tooManyIterations _ _) | .statement (.tooDeep _) => True
  | _ => False

def Settings.withCaps (settings : Settings) (iterations depth : Nat) : Settings :=
  { settings with maxIterations := iterations, maxDepth := depth }

/-- What a reading gives, and where it ends. -/
abbrev Answer : Type :=
  Except Error Expr × Cursor

def Answer.MeetsCap (answer : Answer) : Prop :=
  ∃ e, answer.1 = .error e ∧ e.IsCap

/-! ## Caps above the number of tokens -/

theorem Error.Within.not_isCap {a : Allowance} {tokens : Nat} {e : Error} (h : e.Within a tokens)
    (hlevels : tokens ≤ a.levels) (hitems : tokens ≤ a.items) : ¬e.IsCap := by
  intro hcap
  unfold Error.IsCap at hcap
  split at hcap
  case h_1 construct cap => exact h.items hitems construct cap rfl
  case h_2 cap => exact h.levels hlevels cap rfl
  case h_3 => exact hcap

/-- With caps above the number of tokens no cap is met. -/
theorem Settings.not_meetsCap (settings : Settings) (reading : Reading) {tokens : List Token}
    (hiterations : tokens.length ≤ settings.maxIterations)
    (hdepth : tokens.length < settings.maxDepth) :
    ¬Answer.MeetsCap (settings.attempt reading (Cursor.start tokens)) := by
  rintro ⟨e, hanswer, hcap⟩
  have hends := settings.ends_read reading (Cursor.start tokens)
  unfold Settings.attempt at hanswer
  generalize settings.read reading (Cursor.start tokens) = r at hends hanswer
  cases hends with
  | ok => cases hanswer
  | error hpasses hwithin =>
      cases hanswer
      exact hwithin.not_isCap hdepth (Nat.succ_le_succ hiterations) hcap

/-! ## Different caps -/

/-- Unless a cap is met, different caps give the same answer. -/
theorem Settings.attempt_withCaps (settings : Settings) (reading : Reading) (c : Cursor)
    (iterations depth iterations' depth' : Nat) :
    Answer.MeetsCap ((settings.withCaps iterations depth).attempt reading c) ∨
      Answer.MeetsCap ((settings.withCaps iterations' depth').attempt reading c) ∨
        (settings.withCaps iterations depth).attempt reading c =
          (settings.withCaps iterations' depth').attempt reading c := by
  have hlawful : (Likeness.sameTokens (settings.withCaps iterations depth)
      (settings.withCaps iterations' depth') Error.IsCap).Lawful :=
    Likeness.lawful_sameTokens rfl rfl (.inr fun _ _ => trivial) (.inr fun _ => trivial)
  have hagree := Likeness.agree_read hlawful reading (Likeness.beside_self c)
  unfold Settings.attempt
  change Likeness.Agree _ _ ((settings.withCaps iterations depth).read reading c)
    ((settings.withCaps iterations' depth').read reading c) at hagree
  generalize (settings.withCaps iterations depth).read reading c = x,
    (settings.withCaps iterations' depth').read reading c = y at hagree
  cases hagree with
  | @ok a b _ _ h =>
      have hlike : a.relabel {} = b.relabel {} := h.1
      rw [a.relabel_same, b.relabel_same] at hlike
      exact .inr (.inr (by rw [hlike, h.2.eq_of_sameTokens]))
  | error h hbeside => exact .inr (.inr (by rw [show _ = _ from h, hbeside.eq_of_sameTokens]))
  | first h => exact .inl ⟨_, rfl, h⟩
  | second h => exact .inr (.inl ⟨_, rfl, h⟩)

/-! ## The default caps -/

/-- A stage before the grammar gives values of a kind, or errors that are not about statements. -/
inductive Early {α : Type} (V : α → Prop) : Except Error α → Prop where
  | ok {a : α} (h : V a) : Early V (.ok a)
  | error {e : Error} (h : ∀ cause, e ≠ .statement cause) : Early V (.error e)

theorem Early.bind {α β : Type} {V : α → Prop} {W : β → Prop} {x : Except Error α}
    {f : α → Except Error β} (h : Early V x) (hf : ∀ a, V a → Early W (f a)) :
    Early W (x >>= f) := by
  cases h with
  | ok h => exact hf _ h
  | error h => exact .error h

theorem Early.mono {α : Type} {V W : α → Prop} {x : Except Error α} (h : Early V x)
    (hVW : ∀ a, V a → W a) : Early W x := by
  cases h with
  | ok h => exact .ok (hVW _ h)
  | error h => exact .error h

/-- Each step reads one token at most. -/
theorem Lexer.early_run {lx : Lexicon} {steps : Nat} {place : Text.Place} {done : List Token}
    {cs : List Char} :
    Early (fun tokens => tokens.length ≤ done.length + steps) (run lx steps place done cs) := by
  fun_induction run lx steps place done cs with
  | case1 => exact .ok (Nat.le_trans (Nat.le_of_eq List.length_reverse) (Nat.le_add_right _ _))
  | case2 => exact .error fun _ => nofun
  | case3 => exact .error fun _ => nofun
  | case4 steps place done c cs p hpiece stop ih =>
      have hone : (p.tokenBetween place stop).toList.length ≤ 1 := by
        cases p.tokenBetween place stop with
        | none => exact Nat.zero_le 1
        | some token => exact Nat.le_refl 1
      refine ih.mono fun tokens hlength => ?_
      rw [List.length_append] at hlength
      omega

namespace Escape

theorem early_fuse {delimiters : Delimiters} {source : Array Char} {opening closing : Token} :
    Early (fun _ => True) (fuse delimiters source opening closing) := by
  unfold fuse
  cases slice source opening.span.stop closing.span.start with
  | none => exact .error fun _ => nofun
  | some body =>
      dsimp only
      split
      case isTrue => exact .error fun _ => nofun
      case isFalse => exact .ok trivial

/-- Each token is let through once at most. -/
theorem early_step {pass : Pass} {progress : Progress} {token : Token} :
    Early (fun next => next.tokens.length ≤ progress.tokens.length + 1)
      (pass.step progress token) := by
  obtain ⟨opening, taken, comments⟩ := progress
  unfold Pass.step
  cases opening with
  | none =>
      dsimp only
      split
      case isTrue => exact .ok (Nat.le_succ _)
      split
      case isTrue => exact .ok (Nat.le_succ _)
      case isFalse => exact .ok (Nat.le_refl _)
  | some opening =>
      dsimp only
      split
      case isTrue => exact early_fuse.bind fun _ _ => .ok (Nat.le_refl _)
      case isFalse => exact .ok (Nat.le_succ _)

theorem early_foldlM {pass : Pass} {progress : Progress} {tokens : List Token} :
    Early (fun next => next.tokens.length ≤ progress.tokens.length + tokens.length)
      (tokens.foldlM pass.step progress) := by
  induction tokens generalizing progress with
  | nil => exact .ok (Nat.le_refl _)
  | cons token tokens ih =>
      rw [List.foldlM_cons]
      refine early_step.bind fun next hnext => ?_
      refine ih.mono fun last hlength => ?_
      rw [List.length_cons]
      omega

theorem early_delimiterType {c : Char} : Early (fun _ => True) (delimiterType c) := by
  unfold delimiterType
  cases delimiterType? c with
  | some type => exact .ok trivial
  | none => exact .error fun _ => nofun

theorem early_run {pass : Pass} {tokens : List Token} :
    Early (fun result => result.tokens.length ≤ tokens.length) (pass.run tokens) := by
  refine early_foldlM.bind fun progress hlength => ?_
  unfold Pass.finish
  cases progress.opening with
  | none => exact .ok (by simpa using hlength)
  | some opening => exact .error fun _ => nofun

end Escape

/-- No text gives more tokens than a list may have items by default. -/
theorem Dialect.early_normalize (d : Dialect) (text : String) :
    Early (fun normalized => normalized.tokens.length ≤ d.settings.maxIterations)
      (d.normalize text) := by
  have hcaps : d.lexicon.maxSteps ≤ d.settings.maxIterations := Nat.le_refl _
  have hread : Early (fun tokens => tokens.length ≤ d.settings.maxIterations)
      (d.tokenize text) :=
    Lexer.early_run.mono fun tokens hlength =>
      Nat.le_trans hlength (by rwa [List.length_nil, Nat.zero_add])
  exact hread.bind fun tokens hlength => Escape.early_delimiterType.bind fun _ _ =>
    Escape.early_delimiterType.bind fun _ _ => Escape.early_run.mono fun _ hle =>
      Nat.le_trans hle hlength

/-- Where there are no more tokens than a list may have items, the cap on the items is not met. -/
theorem Settings.statementOf_ne_tooManyIterations (settings : Settings) {tokens : List Token}
    (hlength : tokens.length ≤ settings.maxIterations) (construct : Construct) (cap : Nat) :
    settings.statementOf tokens ≠ .error (.statement (.tooManyIterations construct cap)) := by
  have hends := settings.ends_read .statement (Cursor.start tokens)
  change Ends _ _ 1 2 (settings.statement (Cursor.start tokens)) at hends
  unfold Settings.statementOf
  generalize settings.statement (Cursor.start tokens) = r at hends
  cases hends with
  | ok => exact nofun
  | error hpasses hwithin =>
      intro heq
      cases heq
      exact hwithin.items (Nat.succ_le_succ hlength) construct cap rfl

/-- The default cap on the items of a list is never met. -/
theorem Dialect.parse_ne_tooManyIterations (d : Dialect) (text : String) (construct : Construct)
    (cap : Nat) : d.parse text ≠ .error (.statement (.tooManyIterations construct cap)) := by
  intro heq
  have hearly := d.early_normalize text
  cases hnormalize : d.normalize text with
  | error e =>
      rw [hnormalize] at hearly
      rw [parse, parseWith, hnormalize] at heq
      cases hearly with
      | error h =>
          cases heq
          exact h _ rfl
  | ok normalized =>
      rw [hnormalize] at hearly
      rw [parse_of_normalize hnormalize] at heq
      cases hearly with
      | ok hlength =>
          have hne := d.settings.statementOf_ne_tooManyIterations hlength construct cap
          generalize d.settings.statementOf normalized.tokens = r at hne heq
          cases r with
          | ok e => cases heq
          | error e =>
              cases heq
              exact hne rfl

/-! ## Both -/

/-- Caps only guard.  For each way to read tokens there is an answer that meets no cap and is given
with all caps above the number of tokens; with other caps either a cap is met or the answer is the
same.  By default the cap on the items of a list is never met, since a text that gives more tokens
than that is refused by the lexer. -/
theorem caps_transparent :
    (∀ (settings : Settings) (reading : Reading) (tokens : List Token), ∃ answer : Answer,
      ¬answer.MeetsCap ∧
        (∀ iterations depth, tokens.length ≤ iterations → tokens.length < depth →
          (settings.withCaps iterations depth).attempt reading (Cursor.start tokens) = answer) ∧
        ∀ iterations depth,
          Answer.MeetsCap ((settings.withCaps iterations depth).attempt reading
            (Cursor.start tokens)) ∨
            (settings.withCaps iterations depth).attempt reading (Cursor.start tokens) = answer) ∧
      ∀ (d : Dialect) (text : String),
        (∀ normalized, d.normalize text = .ok normalized →
          normalized.tokens.length ≤ d.settings.maxIterations) ∧
        ∀ construct cap, d.parse text ≠ .error (.statement (.tooManyIterations construct cap)) := by
  constructor
  · intro settings reading tokens
    have hroomy : ∀ iterations depth, tokens.length ≤ iterations → tokens.length < depth →
        ¬Answer.MeetsCap ((settings.withCaps iterations depth).attempt reading
          (Cursor.start tokens)) :=
      fun _ _ hiterations hdepth => Settings.not_meetsCap _ reading hiterations hdepth
    have hroom := hroomy tokens.length (tokens.length + 1) (Nat.le_refl _) (Nat.lt_succ_self _)
    refine ⟨_, hroom, fun iterations depth hiterations hdepth => ?_, fun iterations depth => ?_⟩
    · have hsame := settings.attempt_withCaps reading (Cursor.start tokens) iterations depth
        tokens.length (tokens.length + 1)
      exact (hsame.resolve_left (hroomy _ _ hiterations hdepth)).resolve_left hroom
    · have hsame := settings.attempt_withCaps reading (Cursor.start tokens) iterations depth
        tokens.length (tokens.length + 1)
      exact hsame.imp_right fun hsame => hsame.resolve_left hroom
  · intro d text
    refine ⟨fun normalized hnormalize => ?_, d.parse_ne_tooManyIterations text⟩
    have hearly := d.early_normalize text
    rw [hnormalize] at hearly
    cases hearly with
    | ok hlength => exact hlength

end SqlTree
