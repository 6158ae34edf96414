import FaultSweep.Grid.Parameters

/-!
# Errors

Errors are causes; their texts are made in one place each. A fatal error is a cause with the
contexts it passed through, the outermost first, and its chain is what is shown.
-/

namespace FaultSweep

inductive OsError where
  | notFound
  | alreadyExists
  | notDirectory
  | isDirectory
  | nameTooLong
  | notPermitted
  deriving DecidableEq

def OsError.message : OsError → String
  | notFound => "No such file or directory (os error 2)"
  | alreadyExists => "File exists (os error 17)"
  | notDirectory => "Not a directory (os error 20)"
  | isDirectory => "Is a directory (os error 21)"
  | nameTooLong => "File name too long (os error 36)"
  | notPermitted => "Permission denied (os error 13)"

inductive IoError where
  | os (e : OsError)
  | notText
  | nulInArgument
  | nulInPath
  | other (text : String)
  deriving DecidableEq

def IoError.message : IoError → String
  | os e => e.message
  | notText => "stream did not contain valid UTF-8"
  | nulInArgument => "nul byte found in provided data"
  | nulInPath => "file name contained an unexpected NUL byte"
  | other text => text

/-- Why a command line gave no usable output. -/
inductive CommandError where
  | spawn (command : String) (source : IoError)
  | exitStatus (command status tail : String)
  | output (command details : String)
  | emptyArgv
  deriving DecidableEq

namespace CommandError

def kind : CommandError → String
  | spawn .. => "spawn"
  | exitStatus .. => "exit_status"
  | output .. => "output"
  | emptyArgv => "empty_argv"

def message : CommandError → String
  | spawn command source => "failed to spawn `" ++ command ++ "`: " ++ source.message
  | exitStatus command status tail =>
    "`" ++ command ++ "` exited with " ++ status ++ ": " ++ tail
  | output command details => "unusable output from `" ++ command ++ "`: " ++ details
  | emptyArgv => "empty command line"

/-- The message, and that of the error below it. -/
def chain (e : CommandError) : List String :=
  match e with
  | spawn _ source => [e.message, source.message]
  | _ => [e.message]

end CommandError

/-- Why a probe of a service gave no answer. -/
inductive ProbeError where
  | transport (text : String)
  | status (code : Nat)
  | body (text : String)
  deriving DecidableEq

namespace ProbeError

def kind : ProbeError → String
  | transport _ => "transport"
  | status _ => "status"
  | body _ => "body"

def message : ProbeError → String
  | transport text => "transport error: " ++ text
  | status code => "unexpected HTTP status " ++ Decimal.text code
  | body text => "malformed response body: " ++ text

end ProbeError

inductive Cause where
  | io (e : IoError)
  | command (e : CommandError)
  | wrongKind (e : WrongKind)
  /-- The plan is no document of the right form. -/
  | unreadablePlan
  | unsoundPlan (problems : List String)
  | targetZero
  | noPayload (size : String)
  | unrecordable (status key : String)
  | other (text : String)
  deriving DecidableEq

namespace Cause

def chain : Cause → List String
  | io e => [e.message]
  | command e => e.chain
  | wrongKind e => [e.message]
  | unreadablePlan => ["the plan is not a readable document"]
  | unsoundPlan problems =>
    ["sweep plan is invalid:\n" ++ "\n".intercalate (problems.map ("  - " ++ ·))]
  | targetZero => ["target must be at least 1"]
  | noPayload size => ["no payload declared for size " ++ size]
  | unrecordable status key => ["refusing to record " ++ status ++ " trial for " ++ key]
  | other text => [text]

end Cause

structure Fatal where
  contexts : List String
  cause : Cause
  deriving DecidableEq

namespace Fatal

def of (cause : Cause) : Fatal := ⟨[], cause⟩

def within (e : Fatal) (context : String) : Fatal := ⟨context :: e.contexts, e.cause⟩

/-- All messages, the outermost first. -/
def chain (e : Fatal) : List String := e.contexts ++ e.cause.chain

def message (e : Fatal) : String := e.chain.headD ""

/-- The whole chain on one line. -/
def line (e : Fatal) : String := ": ".intercalate e.chain

end Fatal

end FaultSweep
