/-!
Substrings.
-/

namespace AccessControl.Text

def occursIn (part : List Char) : List Char → Bool
  | [] => part.isEmpty
  | c :: rest => part.isPrefixOf (c :: rest) || occursIn part rest

end AccessControl.Text
