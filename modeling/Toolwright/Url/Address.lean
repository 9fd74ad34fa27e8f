import Toolwright.Url.Host

/-!
Absolute addresses. `Address.parse` reads an address and brings it into its normal form: scheme and
host in small letters, dots in the path resolved, the usual service left out and everything encoded
that has to be. References hold no fragments, so addresses have none.
-/

namespace Toolwright.Url

structure Address where
  scheme : String
  /-- Everything behind the scheme and its colon, in normal form. -/
  rest : List Char
  deriving DecidableEq

namespace Address

def text (a : Address) : String := a.scheme ++ ":" ++ String.ofList a.rest

/-- Schemes whose addresses have a host, with their usual services. -/
def usualService? (scheme : String) : Option Nat :=
  match scheme with
  | "http" => some 80
  | "https" => some 443
  | "ws" => some 80
  | "wss" => some 443
  | "ftp" => some 21
  | _ => none

def isSpecial (scheme : String) : Bool := (usualService? scheme).isSome || scheme == "file"

/-- Controls and spaces at both ends are dropped, tabs and line ends everywhere. -/
def cleaned (s : List Char) : List Char :=
  let outer := fun (c : Char) => c.toNat ≤ 0x20
  let inner := ((s.dropWhile outer).reverse.dropWhile outer).reverse
  inner.filter fun c => c != '\t' && c != '\n' && c != '\r'

def isSchemeChar (c : Char) : Bool := c.isAlphanum || c == '+' || c == '-' || c == '.'

/-- The scheme in small letters and what stands behind its colon. -/
def splitScheme? (s : List Char) : Option (String × List Char) :=
  match s with
  | [] => none
  | c :: _ =>
    if c.isAlpha then
      match s.dropWhile isSchemeChar with
      | ':' :: rest => some (String.ofList ((s.takeWhile isSchemeChar).map Char.toLower), rest)
      | _ => none
    else none

def isSlash (special : Bool) (c : Char) : Bool := c == '/' || (special && c == '\\')

def isUp (segment : List Char) : Bool :=
  ["..", ".%2e", "%2e.", "%2e%2e"].contains (String.ofList (segment.map Char.toLower))

def isHere (segment : List Char) : Bool :=
  [".", "%2e"].contains (String.ofList (segment.map Char.toLower))

def isDrive (s : List Char) : Bool :=
  match s with
  | [c, mark] => c.isAlpha && (mark == ':' || mark == '|')
  | _ => false

/-- The segments before, the last one first, without the last one; the letter of a drive stays. -/
def dropSegment (file : Bool) (before : List (List Char)) : List (List Char) :=
  match before with
  | [only] => if file && isDrive only then [only] else []
  | _ :: rest => rest
  | [] => []

/-- Resolve the dots of segments; those before are given with the last one first. -/
def resolve (file : Bool) (before : List (List Char)) : List (List Char) → List (List Char)
  | [] => before.reverse
  | segment :: rest =>
    if isUp segment then
      let kept := dropSegment file before
      resolve file (if rest.isEmpty then [] :: kept else kept) rest
    else if isHere segment then
      resolve file (if rest.isEmpty then [] :: before else before) rest
    else
      let drive := file && before.isEmpty && isDrive segment
      let segment := if drive then segment.take 1 ++ [':'] else encodeWith inPath segment
      resolve file (segment :: before) rest

def pathText (special file : Bool) (s : List Char) : List Char :=
  (resolve file [] (Text.splitAt (isSlash special) s)).flatMap ('/' :: ·)

def queryText (special : Bool) (s : List Char) : List Char :=
  match s with
  | [] => []
  | mark :: rest => mark :: encodeWith (if special then inSpecialQuery else inQuery) rest

/-- The number of the service, when it has to be written. -/
def service? (scheme : String) (s : List Char) : Option (List Char) :=
  match s with
  | [] => some []
  | _ :: [] => some []
  | _ :: digits =>
    if digits.all Char.isDigit then
      let n := digits.foldl (fun n c => n * 10 + (c.toNat - 48)) 0
      if n < 65536 then
        some (if usualService? scheme = some n then [] else ':' :: (toString n).toList)
      else none
    else none

/-- The host and the service behind it; a colon inside brackets belongs to the host. -/
def splitService : Bool → List Char → List Char × List Char
  | _, [] => ([], [])
  | inside, c :: rest =>
    if c = ':' ∧ !inside then ([], c :: rest)
    else
      let inside := if c = '[' then true else if c = ']' then false else inside
      let (host, service) := splitService inside rest
      (c :: host, service)

def userText (s : List Char) : List Char :=
  let name := encodeWith inUserInfo (s.takeWhile (· != ':'))
  let password := encodeWith inUserInfo ((s.dropWhile (· != ':')).drop 1)
  if name.isEmpty ∧ password.isEmpty then []
  else name ++ (if password.isEmpty then [] else ':' :: password) ++ ['@']

def authority? (scheme : String) (s : List Char) : Option (List Char) := do
  let behind := (s.reverse.takeWhile (· != '@')).reverse
  let user := (s.take (s.length - behind.length)).dropLast
  let (host, service) := splitService false behind
  let hasUser := behind.length < s.length
  if host.isEmpty ∧ (hasUser ∨ !service.isEmpty) then none
  else
    let host ← if isSpecial scheme then specialHost? host else opaqueHost? host
    let service ← service? scheme service
    some (userText user ++ host ++ service)

def endsAuthority (special : Bool) (c : Char) : Bool := isSlash special c || c == '?'

/-- An address with a host, behind the slashes in front of it. -/
def withHost? (scheme : String) (s query : List Char) : Option Address := do
  let special := isSpecial scheme
  let host ← authority? scheme (s.takeWhile (!endsAuthority special ·))
  let path := s.dropWhile (!endsAuthority special ·)
  let path :=
    if path.isEmpty then if special then ['/'] else [] else pathText special false (path.drop 1)
  some ⟨scheme, '/' :: '/' :: (host ++ path ++ queryText special query)⟩

def file? (s query : List Char) : Option Address :=
  let build := fun (host path : List Char) =>
    Address.mk "file" ('/' :: '/' :: (host ++ pathText true true path ++ queryText true query))
  match s with
  | a :: b :: rest =>
    if isSlash true a && isSlash true b then
      let host := rest.takeWhile (!isSlash true ·)
      let path := (rest.dropWhile (!isSlash true ·)).drop 1
      if isDrive host then some (build [] rest)
      else if host.isEmpty then some (build [] path)
      else do
        let host ← if host.contains ':' ∧ host.head? ≠ some '[' then none else specialHost? host
        some (build (if host = "localhost".toList then [] else host) path)
    else some (build [] (if isSlash true a then b :: rest else s))
  | [a] => some (build [] (if isSlash true a then [] else [a]))
  | [] => some (build [] [])

def parse (s : List Char) : Option Address := do
  let (scheme, rest) ← splitScheme? (cleaned s)
  let front := rest.takeWhile (· != '?')
  let query := rest.dropWhile (· != '?')
  if scheme = "file" then file? front query
  else if isSpecial scheme then withHost? scheme (front.dropWhile (isSlash true)) query
  else
    match front with
    | '/' :: '/' :: rest => withHost? scheme rest query
    | '/' :: rest =>
      let path := pathText false false rest
      let path := if path.take 2 = ['/', '/'] then '/' :: '.' :: path else path
      some ⟨scheme, path ++ queryText false query⟩
    | _ => some ⟨scheme, encodeWith inControls front ++ queryText false query⟩

end Address

end Toolwright.Url
