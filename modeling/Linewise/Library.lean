/-
Libraries: grammars by name that share one style table.
-/
import Linewise.Definition.Compile
import Linewise.Definition.Decode
import Linewise.Yaml.Parser

namespace Linewise

/-- grammars by name, and the styles of all of them -/
structure Library where
  grammars : List (String × Grammar) := []
  styles : StyleTable := {}

namespace Library

/-- the grammar of a name -/
def get? (l : Library) (name : String) : Option Grammar := l.grammars.lookup name

/-- keep a grammar, in place of one with the same name -/
def put (l : Library) (g : Grammar) : Library :=
  { l with grammars := (g.name, g) :: l.grammars.filter fun (name, _) => name != g.name }

/-- the outcome of loading: the library after it, notices, and the grammar or why there is none -/
structure Loaded where
  library : Library
  notices : List Notice := []
  result : Except LoadError Grammar

/-- compile a definition and keep the grammar -/
def insert (l : Library) (d : GrammarDefinition) : Loaded :=
  let compiled := d.compile l.styles
  let l := { l with styles := compiled.styles }
  match compiled.result with
  | .error error => { library := l, notices := compiled.notices, result := .error error }
  | .ok grammar =>
    let reload := if (l.get? grammar.name).isSome then [Notice.reloaded grammar.name] else []
    { library := l.put grammar, notices := compiled.notices ++ reload, result := .ok grammar }

/-- load a grammar written in YAML -/
def load (l : Library) (yaml : Text) : Loaded :=
  match (Yaml.parse? yaml).bind GrammarDefinition.ofNode? with
  | none => { library := l, result := .error .malformed }
  | some definition => l.insert definition

/-- load a grammar from the content of a file, if there is one -/
def loadFile (l : Library) (content : Option ByteArray) : Loaded :=
  match content.bind String.fromUTF8? with
  | none => { library := l, result := .error .unreadable }
  | some yaml => l.load yaml.toList

end Library

end Linewise
