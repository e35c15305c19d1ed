import Casewise.Text.Digit
import Casewise.Text.Letter

namespace Casewise.Text

def isAlphanumeric (c : Char) : Bool := isLetter c || isNumeric c

def isWordChar (c : Char) : Bool := isAlphanumeric c || c == '_'

end Casewise.Text
