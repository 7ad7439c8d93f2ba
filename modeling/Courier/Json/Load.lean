import Courier.Fault
import Courier.Text.Lines

namespace Courier.Json

/-- The value in the text of a file; a malformed text is reported with the file's purpose and path.
-/
def load (what path text : String) : Except Fault Value :=
  match read (Text.ofFile text) with
  | .ok v => .ok v
  | .error f =>
    match f.cause with
    | .tooManyDigits digits => .error (.longInteger digits)
    | _ => .error (.format (.notJson what path f))

end Courier.Json
