import SqlTree.Grammar.Level
import SqlTree.Proofs.Run

/-!
# What a parser reads before a rest

A parser yields a value of given tokens before a rest when it takes exactly these tokens and leaves
the rest, whatever stands behind it and however many levels are open.  The rules below put such
facts together along the way a parser is put together.
-/

namespace SqlTree

namespace Parser

variable {α β : Type} {a : α} {b : β} {p : Parser α} {f : α → Parser β}
variable {token : Token} {tokens more rest : List Token} {type : TokenType}

/-- Before the rest, the parser takes exactly the tokens and gives the value. -/
structure Yields (p : Parser α) (tokens : List Token) (a : α) (rest : List Token) : Prop where
  run : ∀ behind depth,
    p ⟨behind, tokens ++ rest, depth⟩ = .ok a ⟨tokens.reverse ++ behind, rest, depth⟩

def headType (tokens : List Token) : Option TokenType :=
  tokens.head?.map Token.type

namespace Yields

/-! ## Sequences and branches -/

theorem pure : Yields (pure a) [] a rest :=
  ⟨fun _ _ => rfl⟩

theorem bind (hp : Yields p tokens a (more ++ rest)) (hf : Yields (f a) more b rest) :
    Yields (p >>= f) (tokens ++ more) b rest := by
  constructor
  intro behind depth
  have hfirst := hp.run behind depth
  have hsecond := hf.run (tokens.reverse ++ behind) depth
  rw [List.append_assoc, bind_of_ok hfirst, hsecond, List.reverse_append, List.append_assoc]

/-- A last step that takes nothing. -/
theorem andThen (hp : Yields p tokens a rest) (hf : Yields (f a) [] b rest) :
    Yields (p >>= f) tokens b rest := by
  have hboth : Yields (p >>= f) (tokens ++ []) b rest := hp.bind hf
  rwa [List.append_nil] at hboth

theorem map {g : α → β} (hp : Yields p tokens a rest) : Yields (g <$> p) tokens (g a) rest := by
  rw [← bind_pure_comp]
  exact hp.andThen pure

theorem nested (hp : Yields p tokens a rest) : Yields (nested p) tokens a rest := by
  constructor
  intro behind depth
  have hbelow := hp.run behind (depth + 1)
  rw [nested_of_ok hbelow, Nat.add_sub_cancel]

/-! ## Single tokens -/

theorem take {f : Token → Parser β} (hf : Yields (f token) tokens b rest) :
    Yields (Parser.take >>= f) (token :: tokens) b rest := by
  have htake : Yields Parser.take [token] token (tokens ++ rest) := ⟨fun _ _ => rfl⟩
  exact htake.bind hf

theorem expect {f : Token → Parser β} (htype : token.type = type)
    (hf : Yields (f token) tokens b rest) :
    Yields (Parser.expect type >>= f) (token :: tokens) b rest := by
  have hexpect : Yields (Parser.expect type) [token] token (tokens ++ rest) :=
    ⟨fun _ _ => expect_eq_ok.2 ⟨_, rfl, htype, rfl⟩⟩
  exact hexpect.bind hf

theorem peekType {f : Option TokenType → Parser β}
    (hf : Yields (f (headType (tokens ++ rest))) tokens b rest) :
    Yields (Parser.peekType >>= f) tokens b rest := by
  have hpeek : Yields Parser.peekType [] (headType (tokens ++ rest)) (tokens ++ rest) :=
    ⟨fun _ _ => rfl⟩
  exact hpeek.bind hf

theorem test {f : Bool → Parser β} {holds : Cursor → Bool} (answer : Bool)
    (htest : ∀ behind depth, holds ⟨behind, tokens ++ rest, depth⟩ = answer)
    (hf : Yields (f answer) tokens b rest) :
    Yields (Parser.test holds >>= f) tokens b rest := by
  have hanswer : Yields (Parser.test holds) [] answer (tokens ++ rest) := by
    constructor
    intro behind depth
    rw [Parser.test, List.nil_append, htest]
    rfl
  exact hanswer.bind hf

/-- The token that is asked for is there. -/
theorem accept {f : Bool → Parser β} (htype : token.type = type)
    (hf : Yields (f true) tokens b rest) :
    Yields (Parser.accept type >>= f) (token :: tokens) b rest := by
  have haccept : Yields (Parser.accept type) [token] true (tokens ++ rest) :=
    ⟨fun _ _ => accept_of_next (congrArg some htype)⟩
  exact haccept.bind hf

/-- The token that is asked for is not there. -/
theorem pass {f : Bool → Parser β} (hnext : headType (tokens ++ rest) ≠ some type)
    (hf : Yields (f false) tokens b rest) :
    Yields (Parser.accept type >>= f) tokens b rest := by
  have hpass : Yields (Parser.accept type) [] false (tokens ++ rest) :=
    ⟨fun _ _ => accept_of_not_next hnext⟩
  exact hpass.bind hf

/-! ## Loops -/

/-- From a value on, the turns of a loop take exactly the tokens and end with a value, provided
there are turns enough for all tokens ahead. -/
def Ends (turn : α → Parser (Turn α)) (a : α) (tokens : List Token) (b : α) (rest : List Token) :
    Prop :=
  ∀ turns : List Token, (tokens ++ rest).length ≤ turns.length →
    Yields (loopOver turn turns a) tokens b rest

variable {turn : α → Parser (Turn α)} {a' : α}

theorem ends_done {b : α} (hturn : Yields (turn a) tokens (.done b) rest) :
    Ends turn a tokens b rest := by
  intro turns _
  constructor
  intro behind depth
  exact loopOver_of_done (hturn.run behind depth) turns

theorem ends_again {b : α} (hturn : Yields (turn a) (token :: tokens) (.again a') (more ++ rest))
    (hmore : Ends turn a' more b rest) : Ends turn a (token :: tokens ++ more) b rest := by
  intro turns hturns
  constructor
  intro behind depth
  have hfirst := hturn.run behind depth
  have hlength : (more ++ rest).length + 1 ≤ turns.length := by
    simp only [List.length_append, List.length_cons] at hturns ⊢
    omega
  cases turns with
  | nil => cases hlength
  | cons _ turns =>
      have hothers := (hmore turns (Nat.le_of_succ_le_succ hlength)).run
        ((token :: tokens).reverse ++ behind) depth
      rw [loopOver, List.append_assoc, hfirst]
      dsimp only
      rw [hothers, List.reverse_append, List.append_assoc]

theorem loop {b : α} (hends : Ends turn a tokens b rest) : Yields (loop turn a) tokens b rest :=
  ⟨fun behind depth => (hends (tokens ++ rest) (Nat.le_refl _)).run behind depth⟩

end Yields

end Parser

end SqlTree
