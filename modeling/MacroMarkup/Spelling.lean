/-! The reserved spellings of the markup language. -/
namespace MacroMarkup.Spelling

def escape : String := "\\"
def comment : String := "%"
def math : String := "$"
def scopeBegin : String := "\x7b"
def scopeEnd : String := "\x7d"

def usePackage : String := "\\usepackage"
def newCommand : String := "\\newcommand"
def newEnvironment : String := "\\newenvironment"
def environmentBegin : String := "\\begin"
def environmentEnd : String := "\\end"
def paragraph : String := "\\paragraph"

/-- What stands around a formula in web output. -/
def mathBeginWeb : String := "\\("
def mathEndWeb : String := "\\)"

/-- The text as a scope, between the two scope markers. -/
def braced (text : String) : String :=
  scopeBegin ++ text ++ scopeEnd

/-- The scope that holds nothing. -/
def emptyScope : String :=
  braced ""

/-- The spelling that invokes a command. -/
def command (name : String) : String :=
  escape ++ name

/-- The spelling that opens an environment. -/
def openEnvironment (name : String) : String :=
  environmentBegin ++ braced name

/-- The spelling that closes an environment. -/
def closeEnvironment (name : String) : String :=
  environmentEnd ++ braced name

end MacroMarkup.Spelling
