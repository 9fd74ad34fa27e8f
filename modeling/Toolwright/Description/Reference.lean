/-!
References of a tool: the address of a document and, behind the first `#`, a selector inside it.
The text of a reference is kept as it is written.
-/

namespace Toolwright

structure Reference where
  text : String
  deriving DecidableEq, Inhabited

namespace Reference

def address (s : List Char) : List Char := s.takeWhile (· != '#')

def fragment? (s : List Char) : Option (List Char) :=
  match s.dropWhile (· != '#') with
  | [] => none
  | _ :: rest => some rest

def url (r : Reference) : String := String.ofList (address r.text.toList)

def selector? (r : Reference) : Option String := (fragment? r.text.toList).map String.ofList

end Reference

end Toolwright
