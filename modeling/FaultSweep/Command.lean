import FaultSweep.Error
import FaultSweep.Text.Blank
import FaultSweep.Text.Utf8

/-!
# Command lines

An argument vector with a working directory, and how it is written in messages: words are separated
by blanks, a word of plain characters stands as it is, and every other word stands in single quotes.
-/

namespace FaultSweep

namespace Shell

def isPlain (c : Char) : Bool := c.isAlphanum || "-_./:=".toList.contains c

/-- The text between single quotes; a single quote itself leaves them for double quotes. -/
def quotedChars : List Char → List Char
  | [] => []
  | c :: cs =>
    if c = '\x27' then '\x27' :: '\x22' :: '\x27' :: '\x22' :: '\x27' :: quotedChars cs
    else c :: quotedChars cs

def quoteChars (cs : List Char) : List Char :=
  if cs ≠ [] ∧ cs.all isPlain then cs else '\x27' :: (quotedChars cs ++ ['\x27'])

def joinChars : List (List Char) → List Char
  | [] => []
  | [w] => quoteChars w
  | w :: ws => quoteChars w ++ ' ' :: joinChars ws

def join (parts : List String) : String := String.ofList (joinChars (parts.map String.toList))

end Shell

structure CommandLine where
  argv : List String
  workDir : Option String
  deriving DecidableEq

namespace CommandLine

def withArgs (c : CommandLine) (args : List String) : List String := c.argv ++ args

end CommandLine

/-- What a program left when it had ended well. -/
structure Output where
  stdout : Utf8.Bytes
  stderr : Utf8.Bytes

/-- The last line of a program's messages that says something. -/
def stderrTail (b : Utf8.Bytes) : String :=
  match Text.lastLine? (Utf8.forgiving b).toList with
  | some cs => String.ofList cs
  | none => "no stderr output"

end FaultSweep
