/-
SearchClient/Wire/Host.lean

The address of the engine as it is kept: without blanks around it and without slashes at its end.
-/
import SearchClient.Error
import SearchClient.Text.Blank

namespace SearchClient.Host

/-- The blanks go first, then the slashes. -/
def normalize (cs : List Char) : List Char :=
  Text.dropEndWhile (· = '/') (Text.trim cs)

/-- The address to keep; there must be something left of it. -/
def read (s : String) : Except ClientError String :=
  match normalize s.toList with
  | [] => .error .noHost
  | cs => .ok (String.ofList cs)

end SearchClient.Host
