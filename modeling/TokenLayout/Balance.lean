/-
# TokenLayout.Balance -- every opener has its own closer

A balanced stream nests: each closer matches the opener opened last among those
still open, whatever its kind.  A closer that meets an opener of another kind, a
closer with nothing open, and an opener that is never closed are faults.  Of
several openers that are never closed the first is blamed.
-/
import TokenLayout.Fault

namespace TokenLayout

set_option autoImplicit false

/-- Check the rest of a stream, given the openers still open, last one first. -/
def checkBalance : (opened : List Token) → Tokens → Except Fault Unit
  | opened, [] =>
      match opened.getLast? with
      | some opener => .error (.ofUnbalanced opener)
      | none => .ok ()
  | opened, t :: rest =>
      if t.tag.isOpener then checkBalance (t :: opened) rest
      else if t.tag.isCloser then
        match opened with
        | opener :: outer =>
            if opener.tag.partner? = some t.tag then checkBalance outer rest
            else .error (.ofUnbalanced t)
        | [] => .error (.ofUnbalanced t)
      else checkBalance opened rest

/-- Check that every opener of a stream is closed by its own closer, innermost
first. -/
def ensureBalance (tokens : Tokens) : Except Fault Unit :=
  checkBalance [] tokens

end TokenLayout
