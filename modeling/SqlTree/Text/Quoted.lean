/-!
# Quoted strings

A string stands between single quotes, and a quote inside it is written twice.  Main statement:
reading the written form of a text gives the text back, whatever follows that is not a quote.
-/

namespace SqlTree.Text.Quoted

def double : List Char → List Char
  | [] => []
  | c :: cs => if c = '\'' then '\'' :: '\'' :: double cs else c :: double cs

/-- The written form of a text: its quotes doubled, between quotes. -/
def write (cs : List Char) : List Char :=
  '\'' :: (double cs ++ ['\''])

/-- Reads what follows an opening quote up to the quote that closes it: the text and what is left.
There is none when no quote closes the string. -/
def readBody : List Char → Option (List Char × List Char)
  | [] => none
  | '\'' :: '\'' :: cs => (readBody cs).map fun (text, rest) => ('\'' :: text, rest)
  | c :: cs =>
    if c = '\'' then some ([], cs)
    else (readBody cs).map fun (text, rest) => (c :: text, rest)

theorem readBody_double {cs rest : List Char} (h : rest.head? ≠ some '\'') :
    readBody (double cs ++ '\'' :: rest) = some (cs, rest) := by
  induction cs with
  | nil =>
    cases rest with
    | nil => simp [double, readBody]
    | cons c rest =>
      have hc : c ≠ '\'' := by simpa using h
      simp only [double, List.nil_append]
      rw [readBody]
      · simp
      · intro cs' _ heq
        injection heq with heq _
        exact hc heq
  | cons c cs ih =>
    by_cases hc : c = '\''
    · subst hc
      simp [double, readBody, ih]
    · simp only [double, if_neg hc, List.cons_append]
      rw [readBody]
      · simp [hc, ih]
      · exact fun _ heq => absurd heq hc

theorem mem_double {c : Char} {cs : List Char} : c ∈ double cs ↔ c ∈ cs := by
  induction cs with
  | nil => rfl
  | cons d cs ih =>
    by_cases hd : d = '\''
    · simp [double, hd, ih]
    · simp [double, hd, ih]

/-- Writing a text brings in nothing but quotes. -/
theorem mem_write {c : Char} (hc : c ≠ '\'') {cs : List Char} : c ∈ write cs ↔ c ∈ cs := by
  simp [write, mem_double, hc]

end SqlTree.Text.Quoted
