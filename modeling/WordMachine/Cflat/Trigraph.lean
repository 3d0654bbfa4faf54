/-
Trigraphs: three-character spellings, starting with two question marks, of characters that some
keyboards lack.
-/
namespace WordMachine.Cflat

/-- The third character of each trigraph, and the character that the trigraph stands for. -/
def trigraphs : List (Char × Char) :=
  [('=', '#'), ('/', '\\'), ('\x27', '^'), ('(', '['), (')', ']'), ('!', '|'), ('<', '\x7b'),
   ('>', '\x7d'), ('-', '~')]

/-- Replaces one trigraph wherever it stands in the text. -/
def replaceTrigraph (third image : Char) : List Char → List Char
  | [] => []
  | c :: rest =>
    if c = '?' ∧ rest.take 2 = ['?', third] then image :: replaceTrigraph third image (rest.drop 2)
    else c :: replaceTrigraph third image rest
termination_by cs => cs.length

/-- Replaces every trigraph, one kind after the other. -/
def replaceTrigraphs (cs : List Char) : List Char :=
  trigraphs.foldl (fun text t => replaceTrigraph t.1 t.2 text) cs

end WordMachine.Cflat
