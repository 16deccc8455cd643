import CcReminder.Storage.ConfigWrites

/-!
# Hook commands

The command of an installed hook (`hook_command.rs`) and how it is recognised again in a
configuration (`installer/mod.rs`). The words of a command are read byte by byte.
-/

set_option autoImplicit true

namespace CcReminder

structure HookCommand where
  command : String
  commandWindows : Option String
  deriving DecidableEq

/-! ## Quoting -/

/-- In single quotes, each of which is closed, escaped and opened again inside. -/
def posixQuote (v : String) : String :=
  String.ofList ('\'' :: v.toList.flatMap (fun c => if c = '\'' then "'\\''".toList else [c]) ++ ['\''])

/-- The text in double quotes behind a run of backslashes, which counts double before a quote. -/
def windowsEscape : Nat → List Char → List Char
  | backslashes, [] => List.replicate (2 * backslashes) '\\'
  | backslashes, c :: cs =>
    if c = '\\' then windowsEscape (backslashes + 1) cs
    else if c = '"' then List.replicate (backslashes + 1) '\\' ++ '"' :: windowsEscape 0 cs
    else List.replicate backslashes '\\' ++ c :: windowsEscape 0 cs

def windowsQuote (v : String) : String := String.ofList ('"' :: windowsEscape 0 v.toList ++ ['"'])

def joinWords (words : List String) : String := String.intercalate " " words

/-- The arguments of the helper. -/
def helperArgs (agent : AgentKind) (event : String) : List String :=
  ["--owner", "cc-reminder", "--agent", agent.asStr, "--event", event]

/-- On Windows an agent that runs the command itself gets bare words, or a call of PowerShell when
the path has a space. -/
def canonicalHookCommand (platform : PathPlatform) (path : String) (agent : AgentKind)
    (event : String) : HookCommand :=
  let args := helperArgs agent event
  let quoted := fun quoter : String → String => joinWords ((path :: args).map quoter)
  match platform, agent with
  | .windows, .codex =>
    { command := quoted windowsQuote
      commandWindows := some (
        if path.toList.contains ' ' then
          joinWords (("& " ++ windowsQuote path) :: args.map windowsQuote)
        else joinWords (path :: args)) }
  | .windows, .claudeCode =>
    { command := quoted windowsQuote, commandWindows := some (quoted windowsQuote) }
  | .unix, _ =>
    { command := quoted posixQuote, commandWindows := some (quoted windowsQuote) }

/-- `(len as u32).to_be_bytes()`. -/
def lengthBytes (n : Nat) : List UInt8 := (List.range 4).map fun i => UInt8.ofNat (n >>> (8 * (3 - i)))

/-- A hashed text, after its length. -/
def hashText (value : List UInt8) : List UInt8 := lengthBytes value.length ++ value

def commandFingerprint (sha256 : List UInt8 → List UInt8) (command : HookCommand) : String :=
  hexEncode (sha256 (hashText (utf8Bytes command.command) ++
    hashText (utf8Bytes (command.commandWindows.getD ""))))

/-! ## Words -/

def isAsciiWhitespace (b : UInt8) : Bool := b = 32 ∨ b = 9 ∨ b = 10 ∨ b = 12 ∨ b = 13

/-- A word in the making: its bytes so far, the last first, or none yet. -/
abbrev Word := Option (List UInt8)

def Word.push (w : Word) (b : UInt8) : Word := some (b :: w.getD [])

/-- The words before, with the one in the making at their end. -/
def Word.close (w : Word) (words : List (List UInt8)) : List (List UInt8) :=
  match w with
  | none => words
  | some bytes => bytes.reverse :: words

/-- Outside quotes, inside them, or behind a backslash outside them. -/
inductive PosixMode where
  | plain
  | quoted
  | escaped
  deriving DecidableEq

/-- A backslash at the end stands for itself. -/
def posixWords : PosixMode → Word → List UInt8 → List (List UInt8)
  | .escaped, w, [] => Word.close (w.push 92) []
  | _, w, [] => w.close []
  | .quoted, w, b :: bs =>
    if b = 39 then posixWords .plain w bs else posixWords .quoted (w.push b) bs
  | .escaped, w, b :: bs => posixWords .plain (w.push b) bs
  | .plain, w, b :: bs =>
    if b = 39 then posixWords .quoted (some (w.getD [])) bs
    else if b = 92 then posixWords .escaped w bs
    else if isAsciiWhitespace b then w.close (posixWords .plain none bs)
    else posixWords .plain (w.push b) bs

/-- Double quotes, and before one of them a run of backslashes by pairs. `run` is the number of
backslashes just read. -/
def windowsWords (inQuotes : Bool) (run : Nat) (w : Word) : List UInt8 → List (List UInt8)
  | [] => Word.close (if run = 0 then w else some (List.replicate run 92 ++ w.getD [])) []
  | b :: bs =>
    if b = 92 then windowsWords inQuotes (run + 1) w bs
    else if b = 34 then
      if run % 2 = 1 then
        windowsWords inQuotes 0 (some (34 :: (List.replicate (run / 2) 92 ++ w.getD []))) bs
      else windowsWords (!inQuotes) 0 (some (List.replicate (run / 2) 92 ++ w.getD [])) bs
    else
      let w : Word := if run = 0 then w else some (List.replicate run 92 ++ w.getD [])
      if isAsciiWhitespace b ∧ !inQuotes then w.close (windowsWords inQuotes 0 none bs)
      else windowsWords inQuotes 0 (w.push b) bs

def shellWords (command : String) : List (List UInt8) :=
  let bytes := utf8Bytes command
  if command.toList.head? = some '"' then windowsWords false 0 none bytes
  else posixWords .plain none bytes

/-! ## Recognition -/

/-- The event of a command of seven words with the marker of the owner, whatever its helper. -/
def recognizeOwned (agent : AgentKind) (command : String) : Option String :=
  match shellWords command with
  | [_, owner, name, agentFlag, agentName, eventFlag, event] =>
    if owner = utf8Bytes "--owner" ∧ name = utf8Bytes "cc-reminder" ∧
        agentFlag = utf8Bytes "--agent" ∧ agentName = utf8Bytes agent.asStr ∧
        eventFlag = utf8Bytes "--event" then
      (cataloguedEvents agent).find? fun candidate => utf8Bytes candidate = event
    else none
  | _ => none

end CcReminder
