/-
Upper and lower case of whole texts. A character may become several (`ß` is `SS` in upper case), and
a capital sigma at the end of a word has a lower case of its own.
-/
import WordMachine.Text.CaseMap
import WordMachine.Text.CaseClass

namespace WordMachine.Text

/-! ## Single characters -/

/-- The upper case of one character. -/
def upperChar (c : Char) : List Char :=
  if c.toNat < 128 then [c.toUpper]
  else (caseImage upperExpansions upperRuns c.toNat).map Char.ofNat

/-- The lower case of one character, whatever stands around it. -/
def lowerChar (c : Char) : List Char :=
  if c.toNat < 128 then [c.toLower]
  else (caseImage lowerExpansions lowerRuns c.toNat).map Char.ofNat

/-! ## Texts -/

/-- The upper case of a text. -/
def upper (s : String) : String := String.ofList (s.toList.flatMap upperChar)

/-- Is the first character that is not ignored a cased one? -/
def startsCased (cs : List Char) : Bool :=
  (cs.dropWhile isCaseIgnorable).head?.any isCased

/-- The lower case of the text `after`, where `before` is the text in front of it, read backwards.
A capital sigma is written in its final form when a cased character stands before it and none after
it, ignored characters apart. -/
def lowerAfter (before : List Char) : List Char → List Char
  | [] => []
  | c :: after =>
    let image :=
      if c == 'Σ' then
        if startsCased before && !startsCased after then ['ς'] else ['σ']
      else lowerChar c
    image ++ lowerAfter (c :: before) after

/-- The lower case of a text. -/
def lower (s : String) : String := String.ofList (lowerAfter [] s.toList)

end WordMachine.Text
