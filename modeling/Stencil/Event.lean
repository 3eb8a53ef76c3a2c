/-!
# Events

What compiling and building report while they run, each with its level and the fields it shows.
-/

namespace Stencil

/-- Something worth noting. -/
inductive Event where
  /-- A template has been rendered, and its page has so many regions. -/
  | compiled (id : String) (regions : Nat)
  /-- Compilation goes on with the parent of a template. -/
  | extending (child parent : String)
  /-- A directory is left out because it was entered before under another path. -/
  | revisited (path : String)
  /-- The templates of a build have been found. -/
  | collected (count : Nat) (pattern : String)
  /-- A page has been written. -/
  | wrote (source target : String)
  /-- A page could not be made or written. -/
  | failed (source error : String)
  deriving DecidableEq, Repr

/-- The line that a log shows of an event. -/
def Event.line : Event → String
  | .compiled id regions =>
    "DEBUG compiled template template=" ++ id ++ " regions=" ++ toString regions
  | .extending child parent =>
    "DEBUG extending parent template child=" ++ child ++ " parent=" ++ parent
  | .revisited path =>
    "WARN skipping directory already visited through a symlink path=" ++ path
  | .collected count pattern =>
    "DEBUG collected templates count=" ++ toString count ++ " pattern=" ++ pattern
  | .wrote source target => "INFO wrote template source=" ++ source ++ " target=" ++ target
  | .failed source error =>
    "WARN failed to build template source=" ++ source ++ " error=" ++ error

end Stencil
