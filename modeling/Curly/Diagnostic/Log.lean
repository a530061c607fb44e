/-! The log of a run: what is recorded of its stages and of the files that it could not use. -/
namespace Curly

inductive Record.Level where
  | error
  | warn
  | info
  | debug
deriving DecidableEq, Repr

inductive Record where
  | unreadable (path reason : String)
  | tokenized
  | parsed
  | analyzed (frames : Nat)
  | typed
  | generated (instructions : Nat)
  | unwritable (path reason : String)
  | finished
deriving DecidableEq, Repr

namespace Record

def level : Record → Level
  | .unreadable .. | .unwritable .. => .error
  | .tokenized | .parsed | .analyzed _ | .typed | .generated _ | .finished => .info

/-- The words of a record. A stage says how long it took. -/
def message (duration : String) : Record → String
  | .unreadable path reason => "failed to read " ++ path ++ ": " ++ reason
  | .tokenized => "Tokenized in " ++ duration
  | .parsed => "Parsed in " ++ duration
  | .analyzed frames =>
    "Scope analysis finished in " ++ duration ++ " (" ++ toString frames ++ " frames)"
  | .typed => "Type checked in " ++ duration
  | .generated instructions =>
    "Generated " ++ toString instructions ++ " instructions in " ++ duration
  | .unwritable path reason => "failed to write " ++ path ++ ": " ++ reason
  | .finished => "Total time: " ++ duration

end Record
end Curly
