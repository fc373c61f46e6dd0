import RuleFlow.Text.Search
import RuleFlow.Text.Word

/-!
# Terms of triple patterns

A term is a variable, an IRI, a literal or a blank node. Blank nodes stand for constants: two
terms with one label are the same term. `Term.render` writes a term as the rule language
does.
-/

namespace RuleFlow

/-- A variable of a rule, written with a question mark before its name. -/
structure Variable where
  /-- The name, without the question mark. -/
  name : String
  deriving DecidableEq, Inhabited

namespace Variable

/-- The variable of a name that may carry its question mark. -/
def ofText (text : String) : Variable := ⟨Text.withoutStart "?" text⟩

/-- The variable as the rule language writes it. -/
def render (v : Variable) : String := "?" ++ v.name

end Variable

/-- What a literal carries beside its lexical form. -/
inductive LiteralKind where
  /-- Nothing. -/
  | plain
  /-- A language tag, in small letters. -/
  | tagged (language : String)
  /-- The IRI of a datatype. -/
  | typed (datatype : String)
  deriving DecidableEq, Inhabited

/-- A literal constant. -/
structure Literal where
  /-- The lexical form, without quotes and escapes. -/
  lexical : String
  /-- The language tag or datatype. -/
  kind : LiteralKind
  deriving DecidableEq, Inhabited

namespace Literal

/-- A literal with a language tag. Tags are equal when they differ in case alone, so the tag
is kept in small letters. -/
def tagged (lexical language : String) : Literal :=
  ⟨lexical, .tagged (Text.lowerAscii language)⟩

/-- The language tag. -/
def language? (l : Literal) : Option String :=
  match l.kind with
  | .tagged language => some language
  | _ => none

/-- The IRI of the datatype. -/
def datatype? (l : Literal) : Option String :=
  match l.kind with
  | .typed datatype => some datatype
  | _ => none

/-- A character of a lexical form as it stands between quotes. -/
def escapeChar (c : Char) : List Char :=
  if c = '"' then ['\\', '"']
  else if c = '\\' then ['\\', '\\']
  else if c = '\n' then ['\\', 'n']
  else if c = '\r' then ['\\', 'r']
  else if c = '\t' then ['\\', 't']
  else [c]

/-- The lexical form between quotes, with its quotes, backslashes and line ends escaped. -/
def quote (lexical : String) : String :=
  "\"" ++ String.ofList (lexical.toList.flatMap escapeChar) ++ "\""

/-- The literal as the rule language writes it. -/
def render (l : Literal) : String :=
  match l.kind with
  | .plain => quote l.lexical
  | .tagged language => quote l.lexical ++ "@" ++ language
  | .typed datatype => quote l.lexical ++ "^^<" ++ datatype ++ ">"

end Literal

/-- A term of a triple pattern or an argument of a functor. -/
inductive Term where
  /-- A variable. -/
  | var (v : Variable)
  /-- A resource named by its IRI. -/
  | iri (name : String)
  /-- A literal. -/
  | literal (l : Literal)
  /-- A blank node, named by its label. -/
  | blank (label : String)
  deriving DecidableEq, Inhabited

namespace Term

/-- The blank node of a label that may carry its mark. -/
def blankOfText (text : String) : Term := .blank (Text.withoutStart "_:" text)

/-- The variable that the term is. -/
def var? : Term → Option Variable
  | .var v => some v
  | _ => none

/-- A term is ground when it is no variable. -/
def isGround (t : Term) : Bool := t.var?.isNone

/-- The term as the rule language writes it. -/
def render : Term → String
  | .var v => v.render
  | .iri name => "<" ++ name ++ ">"
  | .literal l => l.render
  | .blank label => "_:" ++ label

end Term

namespace Iri

/-- The part of an IRI after its last number sign or slash. -/
def localName (iri : String) : String :=
  Text.afterLast (fun c => c = '#' || c = '/') iri

end Iri

/-! ## Namespaces that every rule text knows -/

namespace Vocabulary

/-- The namespace of the basic vocabulary of triples. -/
def rdf : String := "http://www.w3.org/1999/02/22-rdf-syntax-ns#"

/-- The namespace of the schema vocabulary. -/
def rdfs : String := "http://www.w3.org/2000/01/rdf-schema#"

/-- The namespace of the datatypes. -/
def xsd : String := "http://www.w3.org/2001/XMLSchema#"

/-- The namespace of the ontology vocabulary. -/
def owl : String := "http://www.w3.org/2002/07/owl#"

end Vocabulary
end RuleFlow
