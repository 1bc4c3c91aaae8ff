/-
This file runs a query as the command line asks for it and writes the answer.
-/

import ElementQuery.CommandLine.Options
import ElementQuery.Engine.Basic
import ElementQuery.Group.Record
import ElementQuery.Markup.Loader

namespace ElementQuery.CommandLine

/-- A run ends with an exit code and has written on two channels. -/
structure Output where
  code : Nat
  standard : String
  errors : String
deriving DecidableEq, Repr

/-- A run fails with a message and perhaps the cause behind it. -/
structure Failure where
  message : String
  cause : Option String := none
deriving DecidableEq, Repr

def Failure.text (failure : Failure) : String :=
  "Error: " ++ failure.message ++
    (failure.cause.elim "" fun cause => "\n\nCaused by:\n    " ++ cause) ++ "\n"

def green (text : String) : String := "\x1b[32m" ++ text ++ "\x1b[39m"

def cyan (text : String) : String := "\x1b[36m" ++ text ++ "\x1b[39m"

def dimmed (text : String) : String := "\x1b[2m" ++ text ++ "\x1b[0m"

/-- The warnings that a log prints, one after the other. -/
def printedWarnings (quiet : Bool) (warnings : List Warning) : String :=
  String.join (((WarningLog.fresh.setQuiet quiet).recordAll warnings).2.map Warning.printed)

/-- The file that a run reads: none when it only explains or is given its markup. -/
def neededFile? (options : Options) : Option String :=
  if options.explain || options.html.isSome then none else options.file

/-- The markup is given directly or stands in the file. -/
def markup (options : Options) (content : Except String String) : Except Failure String :=
  match options.html, options.file with
  | some html, _ => .ok html
  | none, some file => content.mapError fun cause => ⟨"reading '" ++ file ++ "'", some cause⟩
  | none, none => .error { message := "a file path or --html is required" }

/-- A backend is named without regard to case, and without a name the preferred one is taken. -/
def engine (name : String) : Except Failure Engine :=
  if Text.sameLetters name "auto" then .ok (Engine.ofHost .full)
  else match Backend.ofName? (Text.lower name) with
    | none => .error ⟨"unknown backend '" ++ name ++ "'", some "Matching variant not found"⟩
    | some backend =>
        (Engine.onBackend backend .full).mapError fun error => { message := error.message }

/-- The scope is the document or the element with a given id. -/
def scope (document : Document) (options : Options) : Except Failure NodeId :=
  match options.scope with
  | none => .ok Document.root
  | some id =>
      match document.elementById? id with
      | some found => .ok found
      | none => .error { message := "no element with id '" ++ id ++ "'" }

/-- The elements that a run finds. -/
def search (engine : Engine) (document : Document) (scope : NodeId) (options : Options) :
    Except QueryError (Served (List NodeId)) :=
  if options.first then
    (engine.selectFirst document scope options.query).map fun served =>
      Option.toList <$> served
  else engine.selectAll document scope options.query

/-- An element that was found as a JSON value. -/
def matchRecord? (document : Document) (id : NodeId) : Option JsonValue :=
  (document.element? id).map fun element =>
    .object [("node", .integer id), ("tag", .text element.tag), ("id", .orNull .text element.id?),
      ("classes", .ofTexts element.classes), ("html", .text (Markup.outer document id))]

/-- An element that was found on a line. -/
def matchLine (document : Document) (index : Nat) (id : NodeId) : String :=
  dimmed ("[" ++ toString index ++ "]") ++ " " ++ green ((document.tag? id).getD "") ++ " " ++
    Markup.outer document id ++ "\n"

def jsonLines (values : List JsonValue) : String := (JsonValue.list values).pretty ++ "\n"

/-- The elements are written as JSON values, or on lines with a summary on the other channel. -/
def report (document : Document) (found : List NodeId) (backend : Backend) (json : Bool) :
    String × String :=
  if json then (jsonLines (found.filterMap (matchRecord? document)), "")
  else
    (String.join (found.zipIdx.map fun (id, index) => matchLine document index id),
      cyan (toString found.length ++ " match(es) via " ++ backend.name) ++ "\n")

/-- The groups of a query are explained instead of looked for. -/
def explain (options : Options) : Output :=
  let groups := Group.parse options.query
  ⟨0, jsonLines (groups.value.map Group.explanation),
    printedWarnings options.quiet groups.warnings⟩

/-- A query needs a document, an engine and a scope, in this order. -/
def find (options : Options) (document : Document) :
    Except Failure (Served (String × String)) := do
  let engine ← engine options.backend
  let scope ← scope document options
  let served ← (search engine document scope options).mapError fun error =>
    { message := error.message }
  return (fun found => report document found engine.backend options.json) <$> served

/-- A failure is written behind the warnings that came before it. -/
def fail (options : Options) (warnings : List Warning) (failure : Failure) : Output :=
  ⟨1, "", printedWarnings options.quiet warnings ++ failure.text⟩

/-- A run explains a query or loads a document and searches it; the content is that of the needed
file. -/
def run (options : Options) (content : Except String String) : Output :=
  if options.explain then explain options
  else match markup options content with
    | .error failure => fail options [] failure
    | .ok text =>
        let loaded := Markup.load text
        match find options loaded.value with
        | .error failure => fail options loaded.warnings failure
        | .ok served =>
            ⟨0, served.value.1,
              printedWarnings options.quiet (loaded.warnings ++ served.warnings) ++
                served.value.2⟩

end ElementQuery.CommandLine
