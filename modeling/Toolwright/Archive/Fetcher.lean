import Toolwright.Failure
import Toolwright.Files.Tree
import Toolwright.Url.Address

/-!
Fetchers: where the documents of references come from. A fetcher answers for an address with the
bytes of a document or a failure, or it does not answer at all. What it answers may depend on the
files, since documents can be files; `Fetcher.IsSteady` says that it does not.
-/

namespace Toolwright

inductive Answer where
  | document (content : ByteArray)
  | failed (f : Failure)
  /-- No answer ever comes. -/
  | silent

structure Fetcher where
  answer : Files.Tree → String → Answer

namespace Fetcher

def IsSteady (f : Fetcher) : Prop := ∀ t u url, f.answer t url = f.answer u url

/-- Serves fixed documents; of two with one address the later one. -/
def ofDocuments (documents : List (String × String)) : Fetcher where
  answer _ url :=
    match documents.reverse.lookup url with
    | some text => .document text.toUTF8
    | none => .failed (.io (.unreachable url))

theorem isSteady_ofDocuments (documents : List (String × String)) :
    (ofDocuments documents).IsSteady := fun _ _ _ => rfl

/-- The path in an address that begins with `file://`. -/
def filePath? (url : String) : Option Path :=
  ("file://".toList.isPrefixOf? url.toList).map fun path => ⟨String.ofList path⟩

/-- Why an address other than that of a file is not fetched. -/
def remoteReason (url : String) : Reason :=
  match Url.Address.parse url.toList with
  | none => .badUrl
  | some address =>
    if address.scheme = "http" ∨ address.scheme = "https" then .noConnection address.text
    else .unsupportedUrl address.text

/-- Reads files; other addresses are not within reach. -/
def ofFiles : Fetcher where
  answer t url :=
    match filePath? url with
    | some path =>
      match t.readForCopy path with
      | .ok content => .document content
      | .error fault => .failed (.io (.fault fault))
    | none => .failed (.http (remoteReason url))

/-- Whether a name can be sent with requests: it has no control character but tabs. -/
def isSendable (agent : String) : Bool :=
  agent.toList.all fun c => c = '\t' || (0x20 ≤ c.toNat && c.toNat ≠ 0x7F)

def silencedFor (f : Fetcher) (urls : List String) : Fetcher where
  answer t url := if urls.contains url then .silent else f.answer t url

end Fetcher

end Toolwright
