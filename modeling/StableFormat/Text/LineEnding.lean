/-!
# Line endings

Formatting works on text in which `\n` alone ends a line. A policy says which ending is written
back afterwards.
-/

namespace StableFormat

/-- Which ending the lines of a formatted text get. -/
inductive LineEnding where
  /-- Always `\n`. -/
  | unix
  /-- Always `\r\n`. -/
  | windows
  /-- The ending of the system that the program runs on, which is `\n` here. -/
  | platformNative
  /-- The ending that most lines of the text already have. -/
  | preserve
  deriving DecidableEq, Repr, Inhabited

namespace LineEnding

/-- The name of a policy in configuration files. -/
def label : LineEnding → String
  | unix => "unix"
  | windows => "windows"
  | platformNative => "platform-native"
  | preserve => "preserve"

/-- The policy of a name. -/
def ofLabel? (name : String) : Option LineEnding :=
  [unix, windows, platformNative, preserve].find? (·.label = name)

/-- The number of `\n` that directly follow a `\r`. -/
def countCrLf : List Char → Nat
  | '\r' :: '\n' :: rest => countCrLf rest + 1
  | _ :: rest => countCrLf rest
  | [] => 0

/-- The ending of the majority of the lines; `\n` when neither has one. -/
def predominant (s : String) : String :=
  if countCrLf s.toList * 2 > s.toList.count '\n' then "\r\n" else "\n"

/-- The ending that the policy asks for when the text was `source` before formatting. -/
def endingFor (policy : LineEnding) (source : String) : String :=
  match policy with
  | unix | platformNative => "\n"
  | windows => "\r\n"
  | preserve => predominant source

/-- Gives every line of a text with `\n` endings the ending of the policy. The text before
formatting counts only for `preserve`. -/
def apply (policy : LineEnding) (text source : String) : String :=
  let ending := policy.endingFor source
  if ending = "\n" then text
  else String.ofList (text.toList.flatMap fun c => if c = '\n' then ending.toList else [c])

/-- The text with `\n` endings only: a text that has a `\n` loses every `\r`. Text without any `\n`
stays as it is, so that a lone `\r` survives. -/
def toUnix (text : String) : String :=
  if text.toList.contains '\n' then String.ofList (text.toList.filter (· ≠ '\r')) else text

end LineEnding

end StableFormat
