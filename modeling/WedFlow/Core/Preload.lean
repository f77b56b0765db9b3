import WedFlow.Base.Lines
import WedFlow.Base.Pattern

/-!
# The Worker Scripts

`pg_worker_register.py` and `pg_worker_unregister.py` edit `postgresql.conf` so
that the server loads the worker of a database at its start. Each goes through the
file line by line, looks for assignments of `shared_preload_libraries` with a
regular expression, and rewrites every line that matches; the file is written only
at the end, so a script that exits on the way leaves it alone.

The names on a line are held in a Python set, whose order of iteration is not
known. It is a parameter of the scripts here, and may be different for every line.

A text is what Python reads from the file, where every line break is the one
character.

## Main definitions

* `preloadPattern`: The regular expression.
* `group`: The list a line holds, if it matches.
* `wStr`, `workers`: The list without spaces, and the names in it.
* `Exit`: How a script ends.
* `rewriteLines`: The loop over the lines.
* `registerLine`, `unregisterLine`: What the scripts do with a line that matches.
* `pgWorkerRegister`, `pgWorkerUnregister`: The scripts.
-/

namespace WedFlow

open Lines (Listing lines)
open Pattern (Piece)

/-- What `\s` matches in a text. -/
def pySpace (c : Char) : Bool :=
  (0x09 ≤ c.toNat && c.toNat ≤ 0x0d) || (0x1c ≤ c.toNat && c.toNat ≤ 0x20) ||
    (0x2000 ≤ c.toNat && c.toNat ≤ 0x200a) ||
    c.toNat ∈ [0x85, 0xa0, 0x1680, 0x2028, 0x2029, 0x202f, 0x205f, 0x3000]

/-- The name of the parameter, which is the first group of the expression. -/
def param : List Char :=
  "shared_preload_libraries".toList

/-- `^#?(shared_preload_libraries)\s*=\s*'(.*)'`. -/
def preloadPattern : List (Piece Char) :=
  [.opt '#', .lit param, .star pySpace, .lit ['='], .star pySpace, .lit ['\''],
    .capture (· ≠ '\n'), .lit ['\'']]

/-- The second group, if a line matches. -/
def group (l : List Char) : Option (List Char) :=
  (Pattern.run preloadPattern l).bind List.head?

/-- The list on a line without its spaces. -/
def wStr (g : List Char) : List Char :=
  g.filter (· ≠ ' ')

/-- The elements of the set that is made of it. -/
def workers (g : List Char) : List (List Char) :=
  (wStr g).splitOn ','

/-- The line that is written for a list. -/
def newLine (body : List Char) : List Char :=
  param ++ " = '".toList ++ body ++ "'\n".toList

/-- How a script ends: its status, and what is in the file. -/
structure Exit where
  status : Nat
  file : List Char
deriving DecidableEq, Repr

/-- The loop over the lines of a file. A line that matches is replaced, or the
    script exits there; at the end it exits unless a line has matched. -/
def rewriteLines (edit : List Char → List Char → Except Nat (List Char)) (text : List Char) :
    List (List Char) → Bool → List Char → Exit
  | [], flag, newFile => if flag then ⟨0, newFile⟩ else ⟨1, text⟩
  | l :: ls, flag, newFile =>
    match group l with
    | none => rewriteLines edit text ls flag (newFile ++ l)
    | some g =>
      match edit l g with
      -- Nothing has been written yet.
      | .error status => ⟨status, text⟩
      | .ok line => rewriteLines edit text ls true (newFile ++ line)

/-- Add the worker to the names on a line. A worker that is there already is not
    an error, but it is the end. -/
def registerLine (order : Listing (List Char) (List Char)) (worker l g : List Char) :
    Except Nat (List Char) :=
  if wStr g ≠ [] then
    if (workers g).contains worker then .error 0
    else .ok (newLine ([','].intercalate (order.list l (workers g)) ++ ',' :: worker))
  else .ok (newLine worker)

/-- Remove it again. -/
def unregisterLine (order : Listing (List Char) (List Char)) (worker l g : List Char) :
    Except Nat (List Char) :=
  if wStr g ≠ [] then
    if !(workers g).contains worker then .error 1
    else .ok (newLine ([','].intercalate (order.list l ((workers g).filter (· ≠ worker)))))
  else .error 1

/-- `pg_worker_register.py`. -/
def pgWorkerRegister (order : Listing (List Char) (List Char)) (worker text : List Char) : Exit :=
  rewriteLines (registerLine order worker) text (lines '\n' text) false []

/-- `pg_worker_unregister.py`. -/
def pgWorkerUnregister (order : Listing (List Char) (List Char)) (worker text : List Char) : Exit :=
  rewriteLines (unregisterLine order worker) text (lines '\n' text) false []

end WedFlow
