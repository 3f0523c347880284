import ContainerFeed.Json.Writer
import ContainerFeed.Text.Octets

/-!
# Requests and responses

What the two HTTP surfaces need of the protocol: the method and target of a request, its content
type and its body; the status of a response and its body. The query of a target does not count.
-/

namespace ContainerFeed.Http

/-- A request. -/
structure Request where
  method : String
  target : String
  contentType : Option String
  body : List UInt8

/-- The body of a response. -/
inductive Body where
  | text (content : String)
  | document (content : Node)

/-- A response. -/
structure Response where
  status : Nat
  body : Body

namespace Response

/-- A response with a status alone. -/
def empty (status : Nat) : Response :=
  ⟨status, .text ""⟩

/-- A successful response with a document. -/
def ok (content : Node) : Response :=
  ⟨200, .document content⟩

/-- The answer of a surface that is up. -/
def healthy : Response :=
  ⟨200, .text "ok"⟩

/-- The response to a path that leads nowhere. -/
def notFound : Response :=
  empty 404

/-- The response to a method that the path does not have. -/
def methodNotAllowed : Response :=
  empty 405

end Response

namespace Request

/-- The path of the target. -/
def path (request : Request) : List Char :=
  request.target.toList.takeWhile fun c => c ≠ '?' && c ≠ '#'

/-- The pieces of the path between slashes. An absolute path begins with an empty piece. -/
def pieces (request : Request) : List (List Char) :=
  request.path.splitOn '/'

/-- The content type. A header with other than printable ASCII characters says nothing. -/
def declaredType (request : Request) : String :=
  match request.contentType with
  | some value =>
    if value.toList.all fun c => (32 ≤ c.toNat && c.toNat < 127) || c = '\t' then value else ""
  | none => ""

/-- Answers a request that reads: its method must be one that asks for a representation or for
its head alone. -/
def reading (request : Request) (response : Response) : Response :=
  if request.method = "GET" then response
  else if request.method = "HEAD" then .empty response.status
  else .methodNotAllowed

end Request

/-- The octets that a path piece stands for. A percent sign without two hexadecimal digits stands
for itself. -/
def percentOctets : List Char → List UInt8
  | [] => []
  | '%' :: a :: b :: rest => match Text.hexDigit? a, Text.hexDigit? b with
    | some high, some low => UInt8.ofNat (high * 16 + low) :: percentOctets rest
    | _, _ => Text.toOctets "%" ++ percentOctets (a :: b :: rest)
  | c :: rest => Text.toOctets (String.ofList [c]) ++ percentOctets rest

/-- The text that a path piece stands for, when its octets are well-formed. -/
def percentDecoded? (piece : List Char) : Option String :=
  Text.ofOctets? (percentOctets piece)

end ContainerFeed.Http
