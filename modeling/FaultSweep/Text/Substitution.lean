/-!
# Replacing a pattern in a text

Every occurrence of a pattern is replaced, from left to right; occurrences do not overlap and the
inserted text is not looked at again.
-/

namespace FaultSweep.Text

/-- Replaces after passing over `skip` characters, which belong to an occurrence already seen. -/
def replaceFrom (pattern value : List Char) : Nat → List Char → List Char
  | _, [] => []
  | skip + 1, _ :: cs => replaceFrom pattern value skip cs
  | 0, c :: cs =>
    if pattern.isPrefixOf (c :: cs) then
      value ++ replaceFrom pattern value (pattern.length - 1) cs
    else c :: replaceFrom pattern value 0 cs

/-- All occurrences of a pattern replaced. The pattern is not empty. -/
def replace (pattern value cs : List Char) : List Char := replaceFrom pattern value 0 cs

@[simp] theorem replace_nil (pattern value : List Char) : replace pattern value [] = [] := rfl

end FaultSweep.Text
