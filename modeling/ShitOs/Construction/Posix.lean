import ShitOs.Construction.Vfs
import Mathlib.Data.List.DropRight

/-!
# Splitting paths

A model of `basename` and `dirname` in `user/libc/src/posix.c`.  A path is the list of its bytes;
what the two return is a part of it, or a dot or a slash.
-/

namespace ShitOs

/-- The loop that drops slashes at the end and leaves one byte, on the path backwards. -/
def trimLoop : Text → Text
  | c :: d :: rest => if c = SLASH then trimLoop (d :: rest) else c :: d :: rest
  | rest => rest

/-- The path with `path[end] = '\0'`. -/
def trimmed (path : Text) : Text := (trimLoop path.reverse).reverse

/-- `strrchr (path, '/')`: what stands before the last slash, and what stands behind it. -/
def strrchr : Text → Option (Text × Text)
  | [] => none
  | c :: rest =>
    match strrchr rest with
    | some (front, back) => some (c :: front, back)
    | none => if c = SLASH then some ([], rest) else none

def basename (path : Text) : Text :=
  if path = [] then DOT
  else if trimmed path = [SLASH] then [SLASH]
  else
    match strrchr (trimmed path) with
    | some (_, back) => back
    | none => trimmed path

def dirname (path : Text) : Text :=
  if path = [] then DOT
  else
    match strrchr (trimmed path) with
    | none => DOT
    | some ([], _) => [SLASH]
    | some (front, _) => front.rdropWhile (· == SLASH)

end ShitOs
