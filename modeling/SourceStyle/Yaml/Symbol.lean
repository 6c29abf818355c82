import SourceStyle.Yaml.Property

/-!
Symbols: the parts that a document is made of, with the bounds of block collections made explicit.
-/

namespace SourceStyle.Yaml

/-- A part of a document. Block collections have a symbol where they begin and one where they end,
and every key has one in front of it. -/
inductive Symbol where
  | directive (directive : Directive)
  | documentStart
  | documentEnd
  | sequenceStart
  | mappingStart
  | blockEnd
  | openSquare
  | closeSquare
  | openCurly
  | closeCurly
  | comma
  | dash
  | key
  | value
  | use (name : List Char)
  | name (name : List Char)
  | tag (handle : Handle)
  | scalar (chars : List Char)
deriving DecidableEq, Repr

end SourceStyle.Yaml
