/-!
# YAML tokens

A text is a row of tokens. Most stand for signs that are written; those that begin and end a
block stand for a change of indentation.
-/

namespace ContainerFeed.Yaml

/-- A token. -/
inductive Token where
  /-- Three dashes. -/
  | documentStart
  /-- Three dots. -/
  | documentEnd
  /-- The first dash of a block comes next. -/
  | listBegin
  /-- The first key of a block comes next. -/
  | mapBegin
  | blockEnd
  | listOpen
  | listClose
  | mapOpen
  | mapClose
  | comma
  /-- The sign before an item of a block. -/
  | dash
  /-- A key comes next, whether it is marked as one or only followed by a colon. -/
  | key
  /-- The sign before a value. -/
  | colon
  /-- Text without quotes. -/
  | plain (text : String)
  | quoted (text : String)
  deriving DecidableEq

end ContainerFeed.Yaml
