/-!
Texts as string literals of the script language.
-/
namespace SceneDispatch.Text

/-- Puts a backslash before every quote; nothing else is escaped. -/
def escapeQuotes (s : List Char) : List Char :=
  s.flatMap fun c => if c = '"' then ['\\', '"'] else [c]

def quoteList (s : List Char) : List Char := '"' :: escapeQuotes s ++ ['"']

def quote (s : String) : String := .ofList (quoteList s.toList)

end SceneDispatch.Text
