import Casewise.Data.Json
import Casewise.Number.Format
import Casewise.Text.Blank
import Casewise.Text.Lines

namespace Casewise.Sandbox

inductive Ending where
  | expired
  | exited (status : Int) (output errors : String)

inductive ReplyError where
  | timedOut (seconds : String)
  | badTimeout
  | silent (status : Int) (detail : String)
  | unreadable
  | tooLong
  | notRecord
  deriving DecidableEq, Repr

def ReplyError.message : ReplyError → String
  | .timedOut seconds => "case exceeded the " ++ seconds ++ "s timeout"
  | .badTimeout => "int too large to convert to float"
  | .silent status detail => "sandbox exited with status " ++ toString status ++ ": " ++ detail
  | .unreadable => "sandbox produced an unreadable reply"
  | .tooLong => "an integer is too long"
  | .notRecord => "a reply is no record"

def lastLine (errors : String) : String :=
  match (Text.wideLines (Text.trim errors.toList)).getLast? with
  | some line => String.ofList line
  | none => "no output"

def isBlankText (s : String) : Bool := s.toList.all Text.isBlank

def reply (timeout : Number) : Ending → Except ReplyError Datum
  | .expired =>
    match timeout.brief with
    | some seconds => .error (.timedOut seconds)
    | none => .error .badTimeout
  | .exited status output errors =>
    if status != 0 || isBlankText output then .error (.silent status (lastLine errors))
    else
      match Json.read output with
      | .ok (.record fields) => .ok (.record fields)
      | .ok _ => .error .notRecord
      | .error .malformed => .error .unreadable
      | .error .tooLong => .error .tooLong

end Casewise.Sandbox
