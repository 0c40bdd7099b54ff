/-!
Replacement of every occurrence of a text inside another, from the left and
without overlap.
-/

namespace FormTree.Text

/-- Replaces the occurrences of `pattern`, which has at least one character;
`skip` characters belong to an occurrence already replaced. -/
def replaceChars (pattern image : List Char) : Nat → List Char → List Char
  | _, [] => []
  | skip + 1, _ :: rest => replaceChars pattern image skip rest
  | 0, c :: rest =>
    if pattern.isPrefixOf (c :: rest) then
      image ++ replaceChars pattern image (pattern.length - 1) rest
    else c :: replaceChars pattern image 0 rest

def replace (s pattern image : String) : String :=
  String.ofList (replaceChars pattern.toList image.toList 0 s.toList)

/-- Whether `pattern` occurs in the characters. -/
def occursIn (pattern : List Char) : List Char → Bool
  | [] => pattern.isEmpty
  | c :: rest => pattern.isPrefixOf (c :: rest) || occursIn pattern rest

def contains (s pattern : String) : Bool := occursIn pattern.toList s.toList

end FormTree.Text
