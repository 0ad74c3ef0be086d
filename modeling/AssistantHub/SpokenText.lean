import AssistantHub.RustText

namespace AssistantHub.SpokenText

open AssistantHub.RustText

/-- `replace_all` and `replace` of a regular expression: the pattern, the text
and the replacement. -/
structure Regex where
  replaceAll (pattern text replacement : String) : String
  replace (pattern text replacement : String) : String

def codeBlock : String := "(?s)\x60\x60\x60.*?\x60\x60\x60"

def link : String := "\\[([^\\]]+)\\]\\([^)]*\\)"

def emphasis : List String :=
  ["\\*\\*(.+?)\\*\\*", "__(.+?)__", "\\*(.+?)\\*", "\x60(.+?)\x60"]

def linePrefix : String :=
  "^\\s*(#\x7b1,6\x7d\\s+|[-*+•]\\s+|\\d+[.)]\\s+|>\\s*)"

def spaces : String := "\\s+"

def markup : List Char := [' ', '*', '_', Char.ofNat 96, '#', '|']

def endings : List Char := ['.', '!', '?', ':', ';', ',']

def trimMarkup (line : List Char) : List Char :=
  ((line.dropWhile markup.contains).reverse.dropWhile markup.contains).reverse

/-- A line as a sentence; none if nothing is left of it. -/
def sentence (regex : Regex) (line : String) : Option (List Char) :=
  match trimMarkup (regex.replace linePrefix line "").toList with
  | [] => none
  | c :: chars =>
      if endings.contains ((c :: chars).getLast (List.cons_ne_nil c chars)) then
        some (c :: chars)
      else some (c :: chars ++ ['.'])

/-- `text.replace("°C", " degrees").replace('°', " degrees")` -/
def degrees : List Char → List Char
  | '°' :: 'C' :: rest => " degrees".toList ++ degrees rest
  | '°' :: rest => " degrees".toList ++ degrees rest
  | c :: rest => c :: degrees rest
  | [] => []

/-- Turns markdown from the conversation agent into plain spoken sentences. -/
def speakable (regex : Regex) (text : String) : String :=
  let text := regex.replaceAll codeBlock text " "
  let text := regex.replaceAll link text "$1"
  let text := emphasis.foldl (fun text p => regex.replaceAll p text "$1") text
  let sentences := (lines text).filterMap (sentence regex)
  let text := degrees ([' '].intercalate sentences)
  trim (regex.replaceAll spaces (String.ofList text) " ")

end AssistantHub.SpokenText
