import Casewise.Data.Datum
import Casewise.Ty.Union

namespace Casewise.Ty

mutual

def ofDatum : Datum → Ty
  | .null => null
  | .scalar s => .literal s
  | .list items => .array (union (ofItems items))
  | .record fields => record (ofFields fields)

def ofItems : List Datum → List Ty
  | [] => []
  | d :: ds => ofDatum d :: ofItems ds

def ofFields : List (String × Datum) → List (String × Ty)
  | [] => []
  | (k, d) :: fs => (k, ofDatum d) :: ofFields fs

end

end Casewise.Ty
