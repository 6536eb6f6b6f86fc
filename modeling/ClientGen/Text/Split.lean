/-
  ClientGen.Text.Split

  Cutting texts: the pieces between separator characters, trimming blank
  ends, and the lines of a text.  The functions work on lists of characters;
  the `String` forms beside them are what the other modules call.
-/

namespace ClientGen.Text

/-! ## Pieces -/

/-- The pieces of a text between the characters that satisfy `p`.  There is
    always one piece more than there are such characters. -/
def pieces (p : Char → Bool) : List Char → List (List Char)
  | [] => [[]]
  | c :: rest =>
    if p c then [] :: pieces p rest
    else match pieces p rest with
      | [] => [[c]]
      | piece :: others => (c :: piece) :: others

theorem pieces_ne_nil (p : Char → Bool) (cs : List Char) : pieces p cs ≠ [] := by
  cases cs with
  | nil => simp [pieces]
  | cons c rest =>
    unfold pieces
    split
    · simp
    · split <;> simp

/-- No piece holds a separator. -/
theorem pieces_all_not (p : Char → Bool) (cs : List Char) :
    ∀ piece ∈ pieces p cs, ∀ c ∈ piece, p c = false := by
  induction cs with
  | nil => simp [pieces]
  | cons c rest ih =>
    unfold pieces
    split
    · simpa using ih
    · next hc =>
      split
      · simpa using hc
      · next piece others heq =>
        rw [heq] at ih
        intro q hq d hd
        rcases List.mem_cons.1 hq with rfl | hq
        · rcases List.mem_cons.1 hd with rfl | hd
          · simpa using hc
          · exact ih piece (by simp) d hd
        · exact ih q (by simp [hq]) d hd

/-- The pieces of a string between the characters that satisfy `p`. -/
def splitOn (p : Char → Bool) (s : String) : List String :=
  (pieces p s.toList).map String.ofList

/-! ## Blank ends -/

/-- The characters that count as white space. -/
def isBlank (c : Char) : Bool :=
  let n := c.toNat
  (0x09 ≤ n && n ≤ 0x0D) || n == 0x20 || n == 0x85 || n == 0xA0 || n == 0x1680
    || (0x2000 ≤ n && n ≤ 0x200A) || n == 0x2028 || n == 0x2029 || n == 0x202F
    || n == 0x205F || n == 0x3000

/-- A text without its leading white space. -/
def trimStart (cs : List Char) : List Char := cs.dropWhile isBlank

/-- A text without its trailing white space. -/
def trimEnd (cs : List Char) : List Char := (cs.reverse.dropWhile isBlank).reverse

/-- A text without white space at either end. -/
def trim (s : String) : String := String.ofList (trimEnd (trimStart s.toList))

/-- A text trimmed, and `none` when nothing is left of it. -/
def nonBlank? (s : String) : Option String :=
  let t := trim s
  if t.isEmpty then none else some t

/-! ## Lines -/

/-- The lines of a text; a line feed at the very end opens no further line. -/
def lines (cs : List Char) : List (List Char) :=
  let all := pieces (· == '\n') cs
  if all.getLast? == some [] then all.dropLast else all

/-! ## Both ends -/

/-- What follows `start` in a text that begins with it. -/
def afterStart? (start s : String) : Option String :=
  if start.toList.isPrefixOf s.toList then
    some (String.ofList (s.toList.drop start.toList.length))
  else none

/-- What precedes `ending` in a text that closes with it. -/
def beforeEnd? (ending s : String) : Option String :=
  if ending.toList.isSuffixOf s.toList then
    some (String.ofList (s.toList.take (s.toList.length - ending.toList.length)))
  else none

/-- Whether a text begins with `start`. -/
def startsWith (start s : String) : Bool := start.toList.isPrefixOf s.toList

/-- Whether a text closes with `ending`. -/
def endsWith (ending s : String) : Bool := ending.toList.isSuffixOf s.toList

/-- Whether `part` occurs in a text. -/
def occursIn (part : List Char) : List Char → Bool
  | [] => part.isEmpty
  | c :: rest => part.isPrefixOf (c :: rest) || occursIn part rest

/-- Whether `part` occurs in a text. -/
def contains (part s : String) : Bool := occursIn part.toList s.toList

end ClientGen.Text
