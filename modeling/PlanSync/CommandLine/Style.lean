import PlanSync.Environment

/-!
# Columns and colours on a terminal

Text is filled up with spaces to the width of a column; text that is wider stays
as it is. And text is marked by control sequences around it; marked text inside
marked text goes on in the outer style after its end.
-/

namespace PlanSync

/-! ## Columns -/

/-- A text with spaces after it. -/
def Text.fillEnd (width : Nat) (s : String) : String := String.ofList (s.toList.rightpad width ' ')

/-- A text with spaces before it. -/
def Text.fillStart (width : Nat) (s : String) : String := String.ofList (s.toList.leftpad width ' ')

/-! ## Colours -/

/-- The rendition of a text: the codes between `ESC [` and `m`. -/
structure Style where
  codes : String
  deriving DecidableEq

namespace Style

def bold : Style := ⟨"1"⟩

def dimmed : Style := ⟨"2"⟩

def red : Style := ⟨"31"⟩

def green : Style := ⟨"32"⟩

def yellow : Style := ⟨"33"⟩

def blue : Style := ⟨"34"⟩

def cyan : Style := ⟨"36"⟩

def gray : Style := ⟨"90"⟩

/-- A style in bold. -/
def inBold (s : Style) : Style := ⟨"1;" ++ s.codes⟩

/-- Where a style begins. -/
def opening (s : Style) : String := "\x1b[" ++ s.codes ++ "m"

/-- Where every style ends. -/
def closing : String := "\x1b[0m"

/-- A text in a style, or as it is if styles are off. -/
def paint (s : Style) (on : Bool) (text : String) : String :=
  if on then s.opening ++ text.replace closing (closing ++ s.opening) ++ closing else text

end Style

namespace Environment

/-- Whether a variable is set to something else than `0`. -/
def isSwitchedOn (env : Environment) (name : String) : Bool := (env.get? name).any (· ≠ "0")

/-- Whether a variable is set to something. -/
def isFilled (env : Environment) (name : String) : Bool := (env.get? name).any (· ≠ "")

/-- Whether what is printed is styled: it can be forced on, then off, and else
depends on the terminal. -/
def stylesOutput (env : Environment) : Bool :=
  if env.isSwitchedOn "CLICOLOR_FORCE" then true
  else if (env.get? "NO_COLOR").isSome then false
  else env.outputIsTerminal && env.get? "CLICOLOR" ≠ some "0"

/-- Whether a terminal understands styles. -/
def terminalHasStyles (env : Environment) : Bool :=
  (env.get? "TERM").any (· ≠ "dumb") || env.isSwitchedOn "CLICOLOR" || (env.get? "CI").isSome

/-- Whether reports are styled: forcing them off is stronger here. -/
def stylesReports (env : Environment) : Bool :=
  if env.isFilled "NO_COLOR" then false
  else if env.isFilled "CLICOLOR_FORCE" then true
  else if env.get? "CLICOLOR" = some "0" then false
  else env.errorIsTerminal && env.terminalHasStyles

end Environment

end PlanSync
