import Captions.Display.Basic

/-! # Drawing errors

A text is not drawn if its colour does not exist or if the display refuses.
-/

namespace Captions

/-- The text for a colour that does not exist. -/
def Color.unknownMessage (name : String) : String :=
  "unknown color '" ++ name ++ "'"

/-- Why a text was not drawn or not erased. -/
inductive DrawError where
  /-- No colour has this name. -/
  | unknownColor (name : String)
  /-- The display refused a call. -/
  | display (fault : Fault)
deriving DecidableEq, Repr

/-- The error as shown to the user. -/
def DrawError.message : DrawError → String
  | unknownColor name => Color.unknownMessage name
  | display _ => "failed to write to the display"

/-- The colour a cue asks for by name, or the default colour if it names none. -/
def Color.resolve : Option String → Except DrawError Color
  | none => .ok .default
  | some name =>
    match Color.ofName? name with
    | some color => .ok color
    | none => .error (.unknownColor name)

end Captions
