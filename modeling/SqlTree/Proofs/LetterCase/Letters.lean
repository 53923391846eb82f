import Mathlib
import SqlTree.Proofs.Piece

/-!
# Letters in upper case

What the lexer does to a text does not depend on the case of its ASCII letters, because none of
its tests tells one letter from another.  Here is what raising the letters of a text does to the
parts that the lexer is made of: runs of characters, trimming, the bodies of strings and comments,
the look for a symbol and the dropping of carriage returns.
-/

namespace SqlTree.Text

variable {c d : Char} {cs : List Char}

/-! ## One letter -/

/-- Raising a character leaves it as it is unless it is a letter, and then it gives a letter. -/
theorem toUpper_eq_or (c : Char) :
    c.toUpper = c ∨ c.isAlpha = true ∧ c.toUpper.isAlpha = true := by
  by_cases hlower : c.isLower = true
  · have hletter : c.isAlpha = true := by
      rw [Char.isAlpha, hlower, Bool.or_true]
    have hraised : c.toUpper.isAlpha = true := by
      rw [Char.isAlpha_toUpper_eq_isAlpha, hletter]
    exact .inr ⟨hletter, hraised⟩
  · exact .inl (Char.toUpper_eq_of_not_isLower hlower)

/-- Raising a character does not make or unmake one that is no letter. -/
theorem toUpper_eq_iff (hd : d.isAlpha = false) : c.toUpper = d ↔ c = d := by
  rcases toUpper_eq_or c with hsame | ⟨hc, hraised⟩
  · rw [hsame]
  · constructor
    · rintro rfl
      rw [hd] at hraised
      cases hraised
    · rintro rfl
      rw [hd] at hc
      cases hc

theorem toUpper_eq_self (hd : d.isAlpha = false) : d.toUpper = d :=
  (toUpper_eq_iff hd).2 rfl

/-! ## Tests that take all letters alike -/

def IsCaseBlind (test : Char → Bool) : Prop :=
  ∃ value, ∀ c : Char, c.isAlpha = true → test c = value

theorem IsCaseBlind.toUpper {test : Char → Bool} (htest : IsCaseBlind test) (c : Char) :
    test c.toUpper = test c := by
  obtain ⟨value, hvalue⟩ := htest
  rcases toUpper_eq_or c with hsame | ⟨hc, hraised⟩
  · rw [hsame]
  · rw [hvalue _ hraised, hvalue c hc]

theorem isCaseBlind_startsWord : IsCaseBlind startsWord :=
  ⟨true, fun c hc => by rw [startsWord, isAlphabetic_of_isAlpha hc, Bool.true_or]⟩

theorem isCaseBlind_continuesWord : IsCaseBlind continuesWord := by
  refine ⟨true, fun c hc => continuesWord_of_startsWord ?_⟩
  rw [startsWord, isAlphabetic_of_isAlpha hc, Bool.true_or]

theorem isCaseBlind_isDigit : IsCaseBlind Char.isDigit := by
  refine ⟨false, fun c hc => ?_⟩
  cases hdigit : c.isDigit with
  | false => rfl
  | true =>
      have hletter := toNat_of_isAlpha hc
      have hrange : 0x30 ≤ c.toNat ∧ c.toNat ≤ 0x39 := Char.isDigit_iff_toNat.1 hdigit
      omega

theorem isCaseBlind_isSeparator : IsCaseBlind Lexer.isSeparator := by
  refine ⟨false, fun c hc => ?_⟩
  have hletter := toNat_of_isAlpha hc
  exact Lexer.not_isSeparator_of_le (by omega)

theorem isCaseBlind_isBlank : IsCaseBlind isBlank := by
  refine ⟨false, fun c hc => ?_⟩
  have hletter := toNat_of_isAlpha hc
  grind [isBlank, blankRanges, inRanges]

/-- Looking for a character that is no letter. -/
theorem isCaseBlind_ne (hd : d.isAlpha = false) : IsCaseBlind (· != d) := by
  refine ⟨true, fun c hc => ?_⟩
  rw [bne_iff_ne]
  rintro rfl
  rw [hd] at hc
  cases hc

/-! ## Runs of characters -/

def raised (cs : List Char) : List Char :=
  cs.map Char.toUpper

@[simp] theorem raised_nil : raised [] = [] :=
  rfl

@[simp] theorem raised_cons (c : Char) (cs : List Char) :
    raised (c :: cs) = c.toUpper :: raised cs :=
  rfl

@[simp] theorem raised_append (cs ds : List Char) : raised (cs ++ ds) = raised cs ++ raised ds :=
  List.map_append

@[simp] theorem raised_reverse (cs : List Char) : raised cs.reverse = (raised cs).reverse :=
  List.map_reverse

@[simp] theorem length_raised (cs : List Char) : (raised cs).length = cs.length :=
  List.length_map _

theorem toList_upper (text : String) : (upper text).toList = raised text.toList :=
  String.toList_ofList

theorem upper_ofList (cs : List Char) : upper (String.ofList cs) = String.ofList (raised cs) := by
  rw [upper, String.toList_ofList, raised]

theorem raised_raised (cs : List Char) : raised (raised cs) = raised cs := by
  rw [raised, raised, List.map_map]
  exact List.map_congr_left fun c _ => c.toUpper_toUpper_eq_toUpper

theorem upper_upper (text : String) : upper (upper text) = upper text := by
  rw [upper, toList_upper]
  exact congrArg String.ofList (raised_raised text.toList)

theorem sameWord_upper (text word : String) : sameWord (upper text) word = sameWord text word := by
  rw [sameWord, upper_upper, sameWord]

theorem IsCaseBlind.takeWhile_raised {test : Char → Bool} (htest : IsCaseBlind test)
    (cs : List Char) : (raised cs).takeWhile test = raised (cs.takeWhile test) := by
  rw [raised, List.takeWhile_map, Function.comp_def, funext htest.toUpper, raised]

theorem IsCaseBlind.dropWhile_raised {test : Char → Bool} (htest : IsCaseBlind test)
    (cs : List Char) : (raised cs).dropWhile test = raised (cs.dropWhile test) := by
  rw [raised, List.dropWhile_map, Function.comp_def, funext htest.toUpper, raised]

theorem trim_raised (cs : List Char) : trim (raised cs) = raised (trim cs) := by
  rw [trim, isCaseBlind_isBlank.dropWhile_raised, ← raised_reverse,
    isCaseBlind_isBlank.dropWhile_raised, ← raised_reverse, trim]

theorem allBlank_raised (cs : List Char) : allBlank (raised cs) = allBlank cs := by
  rw [allBlank, raised, List.all_map, Function.comp_def, funext isCaseBlind_isBlank.toUpper,
    allBlank]

/-- A raised text starts with a character that is no letter only if the text does. -/
theorem head?_raised (hd : d.isAlpha = false) :
    (raised cs).head? = some d ↔ cs.head? = some d := by
  cases cs with
  | nil => rfl
  | cons c cs =>
      rw [raised_cons, List.head?_cons, List.head?_cons, Option.some.injEq, Option.some.injEq]
      exact toUpper_eq_iff hd

theorem exists_of_raised_eq_cons (hd : d.isAlpha = false) {rest : List Char}
    (hraised : raised cs = d :: rest) : ∃ tail, cs = d :: tail ∧ rest = raised tail := by
  obtain ⟨c, tail, rfl, hc, htail⟩ := List.map_eq_cons_iff.1 hraised
  rw [(toUpper_eq_iff hd).1 hc]
  exact ⟨tail, rfl, htail.symm⟩

theorem unifyNewlines_raised (cs : List Char) :
    unifyNewlines (raised cs) = raised (unifyNewlines cs) := by
  induction cs with
  | nil => rfl
  | cons c cs ih =>
      have hreturn : c.toUpper = '\r' ∧ (raised cs).head? = some '\n' ↔
          c = '\r' ∧ cs.head? = some '\n' :=
        and_congr (toUpper_eq_iff (by decide)) (head?_raised (by decide))
      by_cases hdrop : c = '\r' ∧ cs.head? = some '\n'
      · rw [raised_cons, unifyNewlines, if_pos (hreturn.2 hdrop), ih, unifyNewlines,
          if_pos hdrop]
      · rw [raised_cons, unifyNewlines, if_neg (mt hreturn.1 hdrop), ih, unifyNewlines,
          if_neg hdrop, raised_cons]

/-! ## Texts -/

theorem upper_append (a b : String) : upper (a ++ b) = upper a ++ upper b := by
  rw [upper, String.toList_append, List.map_append, String.ofList_append, upper, upper]

theorem upper_singleton (c : Char) : upper (String.singleton c) = String.singleton c.toUpper := by
  rw [upper, String.toList_singleton, List.map_singleton, ← String.singleton_eq_ofList]

theorem upper_intercalate (separator : String) (parts : List String) :
    upper (separator.intercalate parts) = (upper separator).intercalate (parts.map upper) := by
  induction parts with
  | nil =>
      rw [List.map_nil, String.intercalate_nil, String.intercalate_nil]
      rfl
  | cons part parts ih =>
      cases parts with
      | nil => rw [List.map_singleton, String.intercalate_singleton, String.intercalate_singleton]
      | cons next parts =>
          rw [List.map_cons, List.map_cons, String.intercalate_cons_cons,
            String.intercalate_cons_cons, upper_append, upper_append, ih, List.map_cons]

/-! ## Bodies of strings and comments -/

abbrev raisedParts (parts : List Char × List Char) : List Char × List Char :=
  (raised parts.1, raised parts.2)

theorem splitClose_raised (cs : List Char) :
    Lexer.splitClose (raised cs) = (Lexer.splitClose cs).map raisedParts := by
  fun_induction Lexer.splitClose cs with
  | case1 => rfl
  | case2 cs =>
      rw [raised_cons, raised_cons, toUpper_eq_self (by decide), toUpper_eq_self (by decide)]
      rfl
  | case3 c cs hnot ih =>
      have hopen : ∀ tail, c.toUpper = '*' → raised cs = '/' :: tail → False := by
        intro tail hstar hslash
        obtain ⟨rest, hcs, -⟩ := exists_of_raised_eq_cons (by decide) hslash
        exact hnot rest ((toUpper_eq_iff (by decide)).1 hstar) hcs
      rw [raised_cons, Lexer.splitClose, ih, Option.map_map, Option.map_map]
      · rfl
      · exact hopen

theorem readBody_raised (cs : List Char) :
    Quoted.readBody (raised cs) = (Quoted.readBody cs).map raisedParts := by
  fun_induction Quoted.readBody cs with
  | case1 => rfl
  | case2 cs ih =>
      rw [raised_cons, raised_cons, toUpper_eq_self (by decide), Quoted.readBody, ih,
        Option.map_map, Option.map_map]
      rfl
  | case3 cs hnot =>
      have hsingle : ∀ tail, raised cs = '\'' :: tail → False := by
        intro tail hquote
        obtain ⟨rest, hcs, -⟩ := exists_of_raised_eq_cons (by decide) hquote
        exact hnot rest rfl hcs
      rw [raised_cons, toUpper_eq_self (by decide), Quoted.readBody, if_pos rfl]
      · rfl
      · exact fun tail _ => hsingle tail
  | case4 c cs hnot hne ih =>
      have hc : c.toUpper ≠ '\'' := mt (toUpper_eq_iff (by decide)).1 hne
      rw [raised_cons, Quoted.readBody, if_neg hc, ih, Option.map_map, Option.map_map]
      · rfl
      · exact fun tail heq => absurd heq hc

theorem double_raised (cs : List Char) : Quoted.double (raised cs) = raised (Quoted.double cs) := by
  induction cs with
  | nil => rfl
  | cons c cs ih =>
      by_cases hc : c = '\''
      · rw [raised_cons, hc, toUpper_eq_self (by decide), Quoted.double, if_pos rfl, ih,
          Quoted.double, if_pos rfl, raised_cons, raised_cons, toUpper_eq_self (by decide)]
      · rw [raised_cons, Quoted.double, if_neg (mt (toUpper_eq_iff (by decide)).1 hc), ih,
          Quoted.double, if_neg hc, raised_cons]

theorem write_raised (cs : List Char) : Quoted.write (raised cs) = raised (Quoted.write cs) := by
  rw [Quoted.write, double_raised, Quoted.write, raised_cons, raised_append, raised_cons,
    raised_nil, toUpper_eq_self (by decide)]

/-! ## Symbols -/

/-- Characters that are no letters stand in front of a raised text only if they stand in front of
the text. -/
theorem isPrefixOf_raised {spelling : List Char} (hspelling : spelling.any Char.isAlpha = false)
    (cs : List Char) : spelling.isPrefixOf (raised cs) = spelling.isPrefixOf cs := by
  induction spelling generalizing cs with
  | nil => rfl
  | cons d spelling ih =>
      rw [List.any_cons, Bool.or_eq_false_iff] at hspelling
      cases cs with
      | nil => rfl
      | cons c cs =>
          have hhead : (d == c.toUpper) = (d == c) := by
            rw [Bool.eq_iff_iff, beq_iff_eq, beq_iff_eq, eq_comm, toUpper_eq_iff hspelling.1,
              eq_comm]
          rw [raised_cons, List.isPrefixOf, List.isPrefixOf, hhead, ih hspelling.2]

theorem raised_eq_self {spelling : List Char} (hspelling : spelling.any Char.isAlpha = false) :
    raised spelling = spelling := by
  have hkept : ∀ d ∈ spelling, d.toUpper = d := fun d hd =>
    toUpper_eq_self (Bool.eq_false_iff.2 (List.any_eq_false.1 hspelling d hd))
  exact (List.map_congr_left hkept).trans (List.map_id' spelling)

end SqlTree.Text
