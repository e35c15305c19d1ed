import Casewise.Mock

namespace Casewise.Sandbox

structure Request where
  source : String
  file : String
  function : String
  args : List Datum
  mocks : List Mock.Payload
  directory : Option String

inductive Answer where
  | returned (returns : Datum) (params : List Datum)
  | raised (exception message : String)
  | timedOut
  | crashed (reason : String)

def Answer.ofRecord (d : Datum) : Answer :=
  if d.textAt "status" = "raised" then .raised (d.textAt "exception") (d.textAt "message")
  else .returned ((d.field? "returns").getD .null) (d.itemsAt "params")

structure Exchange where
  answers : List Answer
  requests : List Request := []

def ask (r : Request) : StateM Exchange Answer :=
  modifyGet fun x =>
    match x.answers with
    | [] => (.crashed "no reply left", { x with requests := x.requests ++ [r] })
    | a :: rest => (a, ⟨rest, x.requests ++ [r]⟩)

end Casewise.Sandbox
