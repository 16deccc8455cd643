import CcReminder.Channels.Http

/-!
# Rendering

A document as Markdown or as plain text, and the two ways of cutting it (`channels/mod.rs`).
-/

namespace CcReminder

open Lib

/-- The characters that mean something in Markdown, or to a platform. -/
def markdownSpecial : List Char :=
  ['\\', '`', '*', '_', '#', '[', ']', '<', '>', '!', '(', ')', '|']

def escapeMarkdown (input : String) : String :=
  String.ofList (input.toList.flatMap fun c => if c ∈ markdownSpecial then ['\\', c] else [c])

/-- `replace('\n', "\n\n")`. -/
def doubleNewlines (text : String) : String :=
  String.ofList (text.toList.flatMap fun c => if c = '\n' then ['\n', '\n'] else [c])

def renderMarkdown (document : NotificationDocument) : String :=
  let title := if document.title ≠ "" then "# " ++ escapeMarkdown document.title ++ "\n" else ""
  let facts :=
    if document.facts ≠ [] then
      (if document.title ≠ "" then "\n" else "") ++
        String.join (document.facts.map fun fact =>
          "- **" ++ escapeMarkdown fact.1 ++ "**: " ++ escapeMarkdown fact.2 ++ "\n")
    else ""
  let blank := if document.title ≠ "" ∨ document.facts ≠ [] then "\n" else ""
  let footer :=
    match document.footer with
    | some footer => if footer ≠ "" then "\n\n---\n\n" ++ escapeMarkdown footer else ""
    | none => ""
  title ++ facts ++ blank ++ doubleNewlines (escapeMarkdown document.body) ++ footer

def severityLabel : Severity → String
  | .info => "INFO"
  | .warning => "WARNING"
  | .error => "ERROR"
  | .critical => "CRITICAL"

def renderText (document : NotificationDocument) : String :=
  let facts :=
    if document.facts ≠ [] then
      "\n" ++ String.join (document.facts.map fun fact => fact.1 ++ ": " ++ fact.2 ++ "\n")
    else ""
  let footer :=
    match document.footer with
    | some footer => "\n" ++ footer
    | none => ""
  document.title ++ "\n" ++ severityLabel document.severity ++ facts ++ "\n" ++ document.body ++
    footer

def truncateChars (input : String) (limit : Nat) : String :=
  if input.length ≤ limit then input else String.ofList (input.toList.take limit)

def truncateBytes (input : String) (limit : Nat) : String :=
  if input.utf8ByteSize ≤ limit then input else String.ofList (backUp input.toList limit)

end CcReminder
