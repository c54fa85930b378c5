/-
Sessions: a sheet kept up to date with a grammar.

A session tells its subscribers what changed (`Delivery`) and the log what it did (`Notice`); both pile up in the
session until they are taken out (`Session.drain`). Fold layouts are built when asked for and kept until something
they depend on changes.
-/
import Linewise.Grammar.Basic
import Linewise.Ignore
import Linewise.Indent.Settings
import Linewise.Sheet.Basic
import Linewise.Text.Quoted

namespace Linewise

/-- what may have to be drawn again -/
inductive Event where
  | lineChanged (line : LineId)
  | foldsChanged
  deriving DecidableEq, Repr

/-- an event as a subscriber receives it; subscribers are numbered from 0 -/
structure Delivery where
  subscriber : Nat
  event : Event
  deriving DecidableEq, Repr

/-- a sheet, the grammar it is analysed with, and what was built and sent on the way; `folds` has a place for each kind
of delimiter -/
structure Session extends Sheet where
  grammar : Grammar
  settings : IndentSettings := {}
  ignores : IgnoreRule := blankOrComment
  folds : List (Option Layout)
  subscribers : Nat := 0
  deliveries : List Delivery := []
  notices : List Notice := []

namespace Session

/-- no layout built -/
def noFolds (g : Grammar) : List (Option Layout) := List.replicate g.delimiters.length none

/-- a session on a document of which no line was analysed -/
def start (grammar : Grammar) (document : Document) : Session :=
  { document, table := .freshFor document.order, grammar, folds := noFolds grammar }

/-- write and read indentation with other settings -/
def withSettings (s : Session) (settings : IndentSettings) : Session := { s with settings }

/-- pass over other lines; every line is analysed again -/
def withIgnoreRule (s : Session) (ignores : IgnoreRule) : Session :=
  { s with ignores, table := s.document.order.foldl (·.markDirty ·) s.table }

/-- one more subscriber -/
def subscribe (s : Session) : Session := { s with subscribers := s.subscribers + 1 }

/-- send an event to every subscriber -/
def notify (s : Session) (event : Event) : Session :=
  { s with deliveries := s.deliveries ++ (List.range s.subscribers).map (⟨·, event⟩) }

/-- tell the log -/
def log (s : Session) (notices : List Notice) : Session := { s with notices := s.notices ++ notices }

/-- take out what piled up for subscribers and the log -/
def drain (s : Session) : List Delivery × List Notice × Session :=
  (s.deliveries, s.notices, { s with deliveries := [], notices := [] })

/-- have lines analysed again -/
def markDirty? (s : Session) (line : Option LineId) : Session := { s with table := s.table.markDirty? line }

/-- drop all layouts, and tell subscribers if there were any -/
def dropFolds (s : Session) : Session :=
  let built := s.folds.any (·.isSome)
  let s := { s with folds := s.folds.map fun _ => none }
  if built then s.notify .foldsChanged else s

/-- a summary of the session in one line -/
def summary (s : Session) : String :=
  let settings := s.settings
  "DocumentAnalyzer \x7b grammar: " ++ Text.quoted s.grammar.name ++ s!", lines: {s.document.lineCount}, settings: " ++
    s!"IndentSettings \x7b tab_width: {settings.tabWidth}, emulate_tabs: {settings.emulateTabs}, " ++
    s!"base_indentation: {settings.baseIndentation} \x7d, " ++
    s!"subscribers: Subscribers \x7b len: {s.subscribers} \x7d, .. \x7d"

end Session

end Linewise
