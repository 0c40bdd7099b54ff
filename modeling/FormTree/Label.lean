import FormTree.Text.Blank
import FormTree.Text.UpperCase

/-!
Display labels made from machine names: `line_item` and `line-item` both read
`Line Item`. Only the first character of a word changes, so a label made once
is not changed again.
-/

namespace FormTree.Label

/-- The separators of a machine name read as spaces. -/
def spaced (c : Char) : Char := if c = '_' ∨ c = '-' then ' ' else c

/-- Spaces the separators and puts the first character of each word through
`upper`; `wordStart` says whether the next character begins a word. -/
def humanizeChars (upper : Char → List Char) (wordStart : Bool) : List Char → List Char
  | [] => []
  | c :: rest =>
    let c := spaced c
    if Text.isBlank c then c :: humanizeChars upper true rest
    else if wordStart then upper c ++ humanizeChars upper false rest
    else c :: humanizeChars upper false rest

/-- The display label of a machine name. -/
def humanize (name : String) : String :=
  String.ofList (humanizeChars Text.upperCase true name.toList)

end FormTree.Label
