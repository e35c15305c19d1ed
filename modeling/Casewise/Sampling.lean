import Casewise.CaseValue

namespace Casewise

inductive SampleError where
  | unsampleable (type : String)
  | tooLong
  | badLimit
  deriving DecidableEq, Repr

def SampleError.message : SampleError → String
  | .unsampleable t => "cannot sample values of type " ++ t
  | .tooLong => "an integer has too many digits"
  | .badLimit => "the number of rows is out of range"

namespace Ty

def numberSamples : List Datum :=
  [.int 0, .int 1, .int (-1), .int 2, .scalar (.number (.float 0.5)), .int 100,
    .scalar (.number (.float (-2.5)))]

def stringSamples : List Datum := [.text "", .text "a", .text "abc", .text "Hello, world", .text " "]

def booleanSamples : List Datum := [.bool true, .bool false]

def alphabet : List Char := "abcdefghijklmnopqrstuvwxyz".toList

def drawn (count : Int) : Nat := (max count 1).toNat

def longerTexts (count : Int) : List Datum :=
  (List.range (count - 5).toNat).map fun i => .text (String.ofList (alphabet.take (i + 4)))

def unsampleable (t : Ty) : Except SampleError Datum :=
  match t.name? with
  | some n => .error (.unsampleable n)
  | none => .error .tooLong

def inNameOrder {α : Type} (ms : List Ty) (results : List (Except SampleError α)) :
    Except SampleError (List α) :=
  match names? ms with
  | none => .error .tooLong
  | some ns => ((sortBy (fun a b => textLe a.1 b.1) (ns.zip results)).map (·.2)).mapM id

mutual

def representative : Ty → Except SampleError Datum
  | .literal s => .ok (.scalar s)
  | .primitive .number => .ok (.int 0)
  | .primitive .string => .ok (.text "")
  | .primitive .boolean => .ok (.bool true)
  | .primitive _ => .ok .null
  | .oneOf ms => do return ((← inNameOrder ms (representatives ms)).head?).getD .null
  | .array .never => .ok (.list [])
  | .array e => do return .list [← representative e]
  | .tuple es => do return .list (← (representatives es).mapM id)
  | .object fs => do return .record (← representFields fs)
  | .unknown => .ok .null
  | t => unsampleable t

def representatives : List Ty → List (Except SampleError Datum)
  | [] => []
  | t :: ts => representative t :: representatives ts

def representFields : List (String × Ty) → Except SampleError (List (String × Datum))
  | [] => .ok []
  | (k, t) :: fs =>
    if t.isOptional then representFields fs
    else do
      let d ← representative t
      return (k, d) :: (← representFields fs)

end

/-- Up to `count` values of a type; alternatives give one value each, whatever the count. -/
def samples (t : Ty) (count : Int) : Except SampleError (List Datum) :=
  match t with
  | .primitive .number => .ok (numberSamples.take (drawn count))
  | .primitive .string => .ok (stringSamples.take (drawn count) ++ longerTexts count)
  | .primitive .boolean => .ok (booleanSamples.take (drawn count))
  | .oneOf ms => inNameOrder ms (representatives ms)
  | t => do return [← representative t]

end Ty

namespace Sampling

/-- The first rows of the cross product, the last place changing fastest. -/
def rows {α : Type} (limit : Nat) : List (List α) → List (List α)
  | [] => [[]].take limit
  | pool :: pools =>
    let tails := rows limit pools
    (pool.flatMap fun a => tails.map (a :: ·)).take limit

def pool (count : Int) : CaseValue → Except SampleError (List Datum)
  | .concrete d => .ok [d]
  | .symbolic t => t.samples count

def rowLimit : Int := Int.pow 2 63 - 1

def expand (values : List CaseValue) (count limit : Int) : Except SampleError (List (List Datum)) := do
  let pools ← values.mapM (pool count)
  -- A limit out of range is noticed only after every pool was drawn.
  if limit < 0 ∨ rowLimit < limit then throw .badLimit
  return rows limit.toNat pools

end Sampling

end Casewise
