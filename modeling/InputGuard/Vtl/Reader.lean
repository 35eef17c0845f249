import InputGuard.Vtl.Literal

/-! Reading a template from left to right, as far as comments and literals go.
Outside a literal `##` starts a comment up to the end of the line, a double quote
a literal up to the next one, and a single quote a literal in which two single
quotes stand for one; all other characters are code. -/

namespace InputGuard.Vtl

inductive Lexeme where
  | code (c : Char)
  | comment (text : List Char)
  | double (text : List Char)
  | single (text : List Char)
  /-- a literal that the text ends inside of, with its quote -/
  | unterminated (quote : Char) (text : List Char)
deriving DecidableEq

/-- Where the reader is; the text of a comment or literal is held newest first. -/
inductive Place where
  | code
  | comment (text : List Char)
  | double (text : List Char)
  | single (text : List Char)

def read : Place → List Char → List Lexeme
  | .code, [] => []
  | .code, '#' :: '#' :: r => read (.comment []) r
  | .code, '"' :: r => read (.double []) r
  | .code, '\'' :: r => read (.single []) r
  | .code, c :: r => .code c :: read .code r
  | .comment text, [] => [.comment text.reverse]
  | .comment text, '\n' :: r => .comment text.reverse :: .code '\n' :: read .code r
  | .comment text, c :: r => read (.comment (c :: text)) r
  | .double text, [] => [.unterminated '"' text.reverse]
  | .double text, '"' :: r => .double text.reverse :: read .code r
  | .double text, c :: r => read (.double (c :: text)) r
  | .single text, [] => [.unterminated '\'' text.reverse]
  | .single text, '\'' :: '\'' :: r => read (.single ('\'' :: text)) r
  | .single text, '\'' :: r => .single text.reverse :: read .code r
  | .single text, c :: r => read (.single (c :: text)) r

def lexemes (template : List Char) : List Lexeme := read .code template

/-- The characters of the code, comments and literals left out. -/
def Lexeme.code? : Lexeme → Option Char
  | .code c => some c
  | _ => none

/-- The text of a string literal. -/
def Lexeme.literal? : Lexeme → Option (List Char)
  | .double text | .single text => some text
  | _ => none

/-- The body of a single-quoted literal up to its closing quote. -/
def takeSingle? : List Char → Option (List Char × List Char)
  | [] => none
  | '\'' :: '\'' :: r => (takeSingle? r).map fun (s, r') => ('\'' :: s, r')
  | '\'' :: r => some ([], r)
  | c :: r => (takeSingle? r).map fun (s, r') => (c :: s, r')

/-- The string literal at the start of a text, and what follows it. -/
def takeString? : List Char → Option (List Char × List Char)
  | '"' :: r => Text.cut '"' r
  | '\'' :: r => takeSingle? r
  | _ => none

end InputGuard.Vtl
