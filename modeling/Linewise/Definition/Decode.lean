/-
Reading grammar definitions and indent settings from trees of data.
-/
import Linewise.Definition.Basic

namespace Linewise

open Data (Node Fields)

/-- names of rule kinds -/
def ruleKinds : List (String × RuleKind) := [("keyword", .keyword), ("range", .range)]

/-- names of rule flags -/
def ruleFlags : List (String × RuleFlags) :=
  [("span", .span), ("no_indent", .noIndent), ("case_insensitive", .ignoreCase), ("comment", .comment)]

/-- names of indent kinds -/
def indentKinds : List (String × IndentKind) :=
  [("increment", .increment), ("decrement", .decrement), ("decrement_all", .decrementAll)]

/-- read a rule -/
def RuleDefinition.ofNode? (node : Node) : Option RuleDefinition := do
  let fields ← node.fields? ["name", "kind", "regex", "begin", "end", "style", "parent", "flags"]
  return {
    name := ← fields.required "name" Node.string?
    kind := ← fields.optional "kind" (Node.choice? ruleKinds)
    regex := ← fields.optional "regex" Node.text?
    opening := ← fields.optional "begin" Node.text?
    closing := ← fields.optional "end" Node.text?
    style := ← fields.optional "style" Node.string?
    parent := ← fields.optional "parent" Node.string?
    flags := ← fields.getD "flags" (Node.list? (Node.choice? ruleFlags)) [] }

/-- read a delimiter -/
def DelimiterDefinition.ofNode? (node : Node) : Option DelimiterDefinition := do
  let fields ← node.fields? ["begin", "end", "literal", "combined"]
  return {
    opening := ← fields.required "begin" Node.text?
    closing := ← fields.required "end" Node.text?
    literal := ← fields.getD "literal" Node.bool? false
    combined := ← fields.optional "combined" Node.text? }

/-- read an indent test -/
def IndentTestDefinition.ofNode? (node : Node) : Option IndentTestDefinition := do
  let fields ← node.fields? ["regex", "offset", "case_insensitive"]
  return {
    regex := ← fields.required "regex" Node.text?
    offset := ← fields.getD "offset" Node.int? 0
    ignoreCase := ← fields.getD "case_insensitive" Node.bool? false }

/-- read an indent pattern -/
def IndentDefinition.ofNode? (node : Node) : Option IndentDefinition := do
  let fields ← node.fields? ["name", "kind", "scale", "rules"]
  return {
    name := ← fields.required "name" Node.string?
    kind := ← fields.required "kind" (Node.choice? indentKinds)
    scale := ← fields.getD "scale" Node.nat? 1
    tests := ← fields.getD "rules" (Node.list? IndentTestDefinition.ofNode?) [] }

/-- read a grammar -/
def GrammarDefinition.ofNode? (node : Node) : Option GrammarDefinition := do
  let fields ← node.fields? ["name", "styles", "patterns", "delimiters", "indent"]
  return {
    name := ← fields.optional "name" Node.string?
    styles := ← fields.getD "styles" (Node.list? Node.string?) []
    rules := ← fields.getD "patterns" (Node.list? RuleDefinition.ofNode?) []
    delimiters := ← fields.getD "delimiters" (Node.list? DelimiterDefinition.ofNode?) []
    indents := ← fields.getD "indent" (Node.list? IndentDefinition.ofNode?) [] }

/-- read indent settings; what is not written keeps its default -/
def IndentSettings.ofNode? (node : Node) : Option IndentSettings := do
  let fields ← node.fields? ["tab_width", "emulate_tabs", "base_indentation"]
  let default : IndentSettings := {}
  return {
    tabWidth := ← fields.getD "tab_width" Node.nat? default.tabWidth
    emulateTabs := ← fields.getD "emulate_tabs" Node.bool? default.emulateTabs
    baseIndentation := ← fields.getD "base_indentation" Node.nat? default.baseIndentation }

end Linewise
