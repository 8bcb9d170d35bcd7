import JavaOutline.Declaration.Basic
import JavaOutline.Report

/-! # Enumeration constants

    Every identifier of a constant list is a constant; the constants are
    numbered in order. -/

namespace JavaOutline

/-- Add the constant that one part of a list stands for. -/
def EnumConstant.step (start : Int) (cs : List EnumConstant) (p : Part) :
    Logged (List EnumConstant) :=
  match p.kind with
  | .identifier => pure (cs ++ [⟨p.text, toString (start + cs.length)⟩])
  | _ => do
    Logged.report (.constantPart p)
    pure cs

/-- The constants of a list, numbered from `start`. -/
def EnumConstant.ofParts (start : Int) (ps : List Part) :
    Logged (List EnumConstant) :=
  Logged.fold (EnumConstant.step start) [] ps

end JavaOutline
