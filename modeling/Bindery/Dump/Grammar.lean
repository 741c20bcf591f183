import Bindery.Dump.Block
import Bindery.Dump.Parser
import Bindery.Text.Blank

/-!
# The dump language

One parser for each construct. Words are read without regard to blanks inside them; between the
parts of a construct blanks and comments may stand. A function without a result returns `void`.
-/

namespace Bindery.Dump

open Bindery.Dump.Parser

/-! ## Words -/

def isIdentStart (c : Char) : Bool := c.isAlpha || c = '_'

def isIdentChar (c : Char) : Bool := c.isAlphanum || c = '_'

def identLength : List Char → Nat
  | [] => 0
  | c :: s => if isIdentStart c then (s.takeWhile isIdentChar).length + 1 else 0

/-- The length of further identifiers, each after one space or more. -/
def moreWordsLength (s : List Char) : Nat :=
  let spaces := (s.takeWhile (· = ' ')).length
  let n := identLength (s.drop spaces)
  if spaces = 0 ∨ n = 0 then 0 else spaces + n + moreWordsLength (s.drop (spaces + n))
termination_by s.length
decreasing_by
  have : (s.takeWhile (· = ' ')).length ≤ s.length := (List.takeWhile_sublist _).length_le
  simp only [List.length_drop]
  omega

def wordsLength (s : List Char) : Nat :=
  let n := identLength s
  if n = 0 then 0 else n + moreWordsLength (s.drop n)

/-- The length of a keyword that no identifier character follows. -/
def keywordLength (w : String) (s : List Char) : Nat :=
  if w.toList.isPrefixOf s && !((s.drop w.length).head?.any isIdentChar) then w.length else 0

/-- The length of an initializer: up to a comma, a brace, the end of the line or a comment. -/
def valueLength : List Char → Nat
  | [] => 0
  | c :: s =>
    if c = ',' ∨ c = '\x7d' ∨ c = '\n' ∨ c = '\r' ∨ (c = '/' ∧ s.head? = some '/') then 0
    else valueLength s + 1

def ident : Parser String := named .ident do return String.ofList (← run identLength)

def keyword (k : Construct) (w : String) : Parser Unit := named k do discard (run (keywordLength w))

def kwClass : Parser Unit :=
  named .kwClass do discard (run (keywordLength "class") <|> run (keywordLength "struct"))

/-- Everything up to a quote, which may be nothing. -/
def quotedText : Parser (List Char) := fun c a =>
  let s := c.rest.takeWhile (· != '"')
  (some (s, c.advance s.length), a)

def string : Parser String := named .string do
  word "\""
  let s ← quotedText
  word "\""
  return String.ofList s

def trimmed (s : List Char) : String := String.ofList (Text.trim s)

/-! ## Types -/

def returnType (type : Parser TypeRef) : Parser TypeRef := named .returnType do
  word "->"
  next type

/-- The result of a function, `void` if none is written. -/
def result (type : Parser TypeRef) : Parser TypeRef := do
  return (← opt (returnType type)).getD .void

def fnType (type : Parser TypeRef) : Parser TypeRef := named .fnType do
  keyword .kwFn "fn"
  next (word "(")
  let parameters ← opt (commaSeparated type)
  next (word ")")
  let returns ← result type
  return .function returns (parameters.getD [])

def templateType (type : Parser TypeRef) : Parser TypeRef := named .templateType do
  let template ← ident
  next (word "<")
  let arguments ← next (commaSeparated type)
  next (word ">")
  return .specialization template arguments

/-- One or more identifiers, of which the spaces between do not matter. -/
def namedType : Parser TypeRef := named .namedType do
  let s ← run wordsLength
  let words := (s.splitOn ' ').filter (!·.isEmpty)
  return .named (" ".intercalate (words.map String.ofList))

def arraySuffix : Parser (Option String) := named .arraySuffix do
  word "["
  let size ← opt (named .arraySize (run fun s => (s.takeWhile (· != ']')).length))
  next (word "]")
  return size.map trimmed

/-- A type that is less than `fuel` deep. -/
def typeRef : Nat → Parser TypeRef
  | 0 => fail
  | fuel + 1 => named .typeRef do
    let base ← fnType (typeRef fuel) <|> templateType (typeRef fuel) <|> namedType
    let stars ← many (named .pointer (word "*"))
    let t := stars.foldl (fun t _ => .pointer t) base
    match ← opt arraySuffix with
    | none => return t
    | some size => return .array t size

/-! ## Declarations -/

section
variable (type : Parser TypeRef)

def param : Parser Parameter := named .param do
  let name ← ident
  next (word ":")
  let type ← next type
  return { name, type }

/-- Name, parameters and result of a function or method, up to the semicolon. -/
def signature : Parser (String × List Parameter × TypeRef) := do
  let name ← next ident
  next (word "(")
  let parameters ← opt (commaSeparated (param type))
  next (word ")")
  let returns ← result type
  next (word ";")
  return (name, parameters.getD [], returns)

def fieldDecl : Parser Member := named .fieldDecl do
  keyword .kwField "field"
  let name ← next ident
  next (word ":")
  let type ← next type
  next (word ";")
  return .field name type

def methodDecl : Parser Member := named .methodDecl do
  keyword .kwMethod "method"
  let (name, parameters, returns) ← signature type
  return .method name parameters returns

def member : Parser Member := fieldDecl type <|> methodDecl type

def classBody : Parser (List Member) := named .classBody do
  word "\x7b"
  let members ← many (member type)
  next (word "\x7d")
  return members

def classDecl : Parser Entry := named .classDecl do
  kwClass
  let name ← next ident
  let members ← next (some <$> classBody type <|> (do word ";"; return none))
  return .record name members

def extendDecl : Parser Product := named .extendDecl do
  keyword .kwExtend "extend"
  let owner ← next ident
  next (word "\x7b")
  let members ← many (member type)
  next (word "\x7d")
  return .extension owner members

def enumItem : Parser EnumItem := named .enumItem do
  let name ← ident
  let value ← opt do
    word "="
    next (named .enumValue (run valueLength))
  return { name, value := value.map trimmed }

def enumDecl : Parser Entry := named .enumDecl do
  keyword .kwEnum "enum"
  let name ← next ident
  let marker ← opt (named .flagsMarker do
    word ":"
    next (word "flags"))
  next (word "\x7b")
  let items ← opt do
    let items ← commaSeparated enumItem
    discard (opt (word ","))
    return items
  next (word "\x7d")
  return .enumeration name marker.isSome (items.getD [])

def aliasDecl : Parser Entry := named .aliasDecl do
  keyword .kwAlias "typedef"
  let name ← next ident
  next (word "=")
  let target ← next type
  next (word ";")
  return .alias name target

def functionDecl : Parser Entry := named .functionDecl do
  keyword .kwFn "fn"
  let (name, parameters, returns) ← signature type
  return .function name parameters returns

def namespaceDecl (entry : Parser Entry) : Parser Entry := named .namespaceDecl do
  keyword .kwNamespace "namespace"
  let name ← next ident
  next (word "\x7b")
  let entries ← many entry
  next (word "\x7d")
  return .namespace name entries

/-- A declaration that is less than `fuel` deep. -/
def entry : Nat → Parser Entry
  | 0 => fail
  | fuel + 1 =>
    namespaceDecl (entry fuel) <|> classDecl type <|> enumDecl <|> aliasDecl type <|>
      functionDecl type

/-! ## Blocks -/

def unitBlock (entry : Parser Entry) : Parser Block := named .unitBlock do
  keyword .kwUnit "unit"
  let file ← next string
  next (word "\x7b")
  let entries ← many entry
  next (word "\x7d")
  return .unit file entries

def generatedBlock (entry : Parser Entry) : Parser Block := named .generatedBlock do
  keyword .kwGenerated "generated"
  let file ← next string
  next (word "\x7b")
  let products ← many (extendDecl type <|> Product.entry <$> entry)
  next (word "\x7d")
  return .generated file products

end

/-- A whole dump, all of which is less than `fuel` deep. -/
def file (fuel : Nat) : Parser Dump := named .file do
  let blocks ← many
    (unitBlock (entry (typeRef fuel) fuel) <|>
      generatedBlock (typeRef fuel) (entry (typeRef fuel) fuel))
  next (named .endOfInput atEnd)
  return blocks

/-- The dump that a text stands for, or the attempts that came farthest. -/
def ofText (s : List Char) : Except Attempts Dump :=
  match file (s.length + 1) ⟨0, s⟩ {} with
  | (some (d, _), _) => .ok d
  | (none, a) => .error a

end Bindery.Dump
