import WedFlow.Base.Lines
import WedFlow.Base.PgInput
import WedFlow.Base.SqlText

/-!
# How PostgreSQL Reads `postgresql.conf`

The server's own view of the file the worker scripts edit: the scanner and the
parser of `guc-file.l`, and the list of libraries that `load_libraries` makes of
the parameter.

No token goes over the end of a line, so the file is scanned line by line. The
scanner takes the longest token it can: a word is all the characters a word can
have, and a string constant whose last quote is doubled goes on to the next one if
there is one. A line is the name of a parameter, an equals sign or not, a value,
and nothing else; a line that is not is reported and assigns nothing. Of several
assignments the last one counts.

The scanner recurses over the rest of the line after a token, so it is given a
bound on the number of tokens, and the length of the line is always enough.

Left out are the files that are included, the limit on reported errors, and that a
server does not start on a file with an error in it: what is read here is what the
other lines assign.

## Main definitions

* `Token`: The tokens of `guc-file.l`.
* `lex`, `tokens`: The tokens of a line.
* `gucScanstr`: The text of a string constant.
* `parseLine`, `parseConfigFp`: The assignments of a line and of a file.
* `splitIdentifierString`: The names in a list.
* `loadLibraries`: The libraries of a list.
* `sharedPreloadLibraries`: The libraries a file makes the server load.
-/

namespace Guc

open Lines (lines)
open Pg (isSpace)
open Sql (truncateIdentifier)

/-- The tokens, without their delimiters. -/
inductive Token where
  | id (s : List Char)
  | qualifiedId (s : List Char)
  | string (s : List Char)
  | unquotedString (s : List Char)
  | integer (s : List Char)
  | real (s : List Char)
  | equals
  | error
deriving DecidableEq, Repr

/-! ## The scanner -/

def isLetterOrDigit (c : Char) : Bool :=
  Sql.identStart c || c.isDigit

def isId : List Char → Bool
  | c :: cs => Sql.identStart c && cs.all isLetterOrDigit
  | [] => false

def isQualifiedId (s : List Char) : Bool :=
  match s.splitOn '.' with
  | [a, b] => isId a && isId b
  | _ => false

/-- What an unquoted word goes on with. -/
def isWordChar (c : Char) : Bool :=
  isLetterOrDigit c || c ∈ ['-', '.', ':', '/']

/-- The first rule that takes a whole word is the one that counts. -/
def wordToken (s : List Char) : Token :=
  if isId s then .id s else if isQualifiedId s then .qualifiedId s else .unquotedString s

/-- The rest of a string constant after its opening quote: what stands in it, as it
    is written, and what follows. A doubled quote goes on only if the constant ends
    somewhere. -/
def stringRest : List Char → Option (List Char × List Char)
  | [] => none
  -- A backslash takes the next character with it, also a quote.
  | '\\' :: c :: cs => (stringRest cs).map fun r => ('\\' :: c :: r.1, r.2)
  | '\'' :: cs =>
    match cs with
    | '\'' :: ds =>
      match stringRest ds with
      | some r => some ('\'' :: '\'' :: r.1, r.2)
      -- Nothing ends it further on, so it ends at the first of the two.
      | none => some ([], cs)
    | _ => some ([], cs)
  | c :: cs => if c = '\\' then none else (stringRest cs).map fun r => (c :: r.1, r.2)

def signLength : List Char → Nat
  | c :: _ => if c = '-' ∨ c = '+' then 1 else 0
  | [] => 0

/-- The length of an exponent, or none. -/
def exponentLength : List Char → Nat
  | e :: cs =>
    if e = 'e' ∨ e = 'E' then
      let k := signLength cs
      let d := ((cs.drop k).takeWhile Char.isDigit).length
      if d = 0 then 0 else 1 + k + d
    else 0
  | [] => 0

/-- The digits of an integer with the letters of its unit. -/
def withUnit (digit : Char → Bool) (cs : List Char) : Nat :=
  let n := (cs.takeWhile digit).length
  if n = 0 then 0 else n + ((cs.drop n).takeWhile Char.isAlpha).length

def isHexDigit (c : Char) : Bool :=
  c.isDigit || ('a' ≤ c && c ≤ 'f') || ('A' ≤ c && c ≤ 'F')

def hexLength : List Char → Nat
  | '0' :: 'x' :: cs => if withUnit isHexDigit cs = 0 then 0 else 2 + withUnit isHexDigit cs
  | _ => 0

def integerLength (cs : List Char) : Nat :=
  max (withUnit Char.isDigit cs) (hexLength cs)

def realLength (cs : List Char) : Nat :=
  let n := (cs.takeWhile Char.isDigit).length
  match cs.drop n with
  | '.' :: ds =>
    let m := (ds.takeWhile Char.isDigit).length
    n + 1 + m + exponentLength (ds.drop m)
  | _ => 0

/-- The number a text begins with: the token and its length. -/
def numberToken (cs : List Char) : Option (Token × Nat) :=
  let k := signLength cs
  let i := integerLength (cs.drop k)
  let r := realLength (cs.drop k)
  -- The longer one counts, and the integer if both are as long.
  if i < r then some (.real (cs.take (k + r)), k + r)
  else if 0 < i then some (.integer (cs.take (k + i)), k + i)
  else none

def isBlank (c : Char) : Bool :=
  c = ' ' || c = '\t' || c = '\r'

/-- The tokens of a line, at most as many as are asked for. -/
def lex : Nat → List Char → List Token
  | 0, _ => []
  | _, [] => []
  | n + 1, c :: cs =>
    if isBlank c then lex n cs
    else if c = '#' then []
    else if Sql.identStart c then
      wordToken (c :: cs.takeWhile isWordChar) :: lex n (cs.dropWhile isWordChar)
    else if c = '\'' then
      match stringRest cs with
      | some r => .string r.1 :: lex n r.2
      -- A quote that opens nothing is an error by itself, and the scan goes on behind it.
      | none => .error :: lex n cs
    else if c = '=' then .equals :: lex n cs
    else
      match numberToken (c :: cs) with
      | some (t, k) => t :: lex n ((c :: cs).drop k)
      | none => .error :: lex n cs

def tokens (l : List Char) : List Token :=
  lex (l.takeWhile (· ≠ '\n')).length (l.takeWhile (· ≠ '\n'))

/-! ## The parser -/

def isOctal (c : Char) : Bool :=
  '0' ≤ c && c ≤ '7'

/-- The character of an octal number. -/
def octal (ds : List Char) : Char :=
  Char.ofNat (ds.foldl (fun v d => 8 * v + (d.toNat - 48)) 0 % 256)

/-- The character a backslash makes of the next one. -/
def unescape (c : Char) : Char :=
  if c = 'b' then '\x08'
  else if c = 'f' then '\x0c'
  else if c = 'n' then '\n'
  else if c = 'r' then '\r'
  else if c = 't' then '\t'
  else c

/-- The text of a string constant, after the given number of characters: escapes and
    doubled quotes are resolved. Up to three octal digits are one character. -/
def scanstr : Nat → List Char → List Char
  | _, [] => []
  | k + 1, _ :: cs => scanstr k cs
  | 0, c :: cs =>
    if c = '\\' then
      match cs with
      | [] => []
      | d :: _ =>
        let digits := (cs.take 3).takeWhile isOctal
        if isOctal d then octal digits :: scanstr digits.length cs
        else unescape d :: scanstr 1 cs
    else if c = '\'' ∧ cs.head? = some '\'' then c :: scanstr 1 cs
    else c :: scanstr 0 cs

def gucScanstr (s : List Char) : List Char :=
  scanstr 0 s

/-- A token that can name a parameter. -/
def Token.name : Token → Option (List Char)
  | .id s => some s
  | .qualifiedId s => some s
  | _ => none

/-- A token that can be a value. -/
def Token.value : Token → Option (List Char)
  | .id s => some s
  | .string s => some (gucScanstr s)
  | .unquotedString s => some s
  | .integer s => some s
  | .real s => some s
  | _ => none

/-- The name and the value of one assignment, and the end of the line. -/
def parseLine : List Token → Option (List Char × List Char)
  | t :: .equals :: [v] => t.name.bind fun n => v.value.map (n, ·)
  | t :: [v] => t.name.bind fun n => v.value.map (n, ·)
  | _ => none

/-- The assignments of a file, in order. -/
def parseConfigFp (text : List Char) : List (List Char × List Char) :=
  (lines '\n' text).filterMap fun l => parseLine (tokens l)

/-- Names of parameters are compared without regard to case. -/
def gucNameEq (a b : List Char) : Bool :=
  a.map Char.toLower = b.map Char.toLower

/-! ## The libraries -/

/-- A name without quotes: in lower case and cut to its length. -/
def downcaseTruncateIdentifier (s : List Char) : List Char :=
  truncateIdentifier (s.map Char.toLower)

/-- A quoted name after its opening quote, and what follows. -/
def quotedName : List Char → Option (List Char × List Char)
  | [] => none
  | '"' :: cs =>
    match cs with
    | '"' :: ds => (quotedName ds).map fun r => ('"' :: r.1, r.2)
    | _ => some ([], cs)
  | c :: cs => (quotedName cs).map fun r => (c :: r.1, r.2)

/-- The name at the start of a list, and what follows. -/
def firstName (cs : List Char) : Option (List Char × List Char) :=
  match cs with
  | '"' :: ds => (quotedName ds).map fun r => (truncateIdentifier r.1, r.2)
  | _ =>
    let name := cs.takeWhile fun c => c ≠ ',' && !isSpace c
    if name = [] then none
    else some (downcaseTruncateIdentifier name, cs.dropWhile fun c => c ≠ ',' && !isSpace c)

/-- The names from here on, at most as many as are asked for. -/
def splitNames : Nat → List Char → Option (List (List Char))
  | 0, _ => none
  | n + 1, cs =>
    match firstName cs with
    | none => none
    | some (x, rest) =>
      match rest.dropWhile isSpace with
      | [] => some [x]
      -- After a comma another name has to come.
      | c :: ds => if c = ',' then (splitNames n (ds.dropWhile isSpace)).map (x :: ·) else none

/-- The names in a list, or nothing if it is not one. -/
def splitIdentifierString (s : List Char) : Option (List (List Char)) :=
  if s.dropWhile isSpace = [] then some []
  else splitNames (s.length + 1) (s.dropWhile isSpace)

/-- A list that is not one is reported, and no library is loaded. -/
def loadLibraries (s : List Char) : List (List Char) :=
  (splitIdentifierString s).getD []

/-- The libraries a file makes the server load at its start. -/
def sharedPreloadLibraries (text : List Char) : List (List Char) :=
  let set := (parseConfigFp text).filter fun a => gucNameEq a.1 "shared_preload_libraries".toList
  loadLibraries ((set.getLast?.map (·.2)).getD [])

end Guc
