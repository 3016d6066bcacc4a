import Pingweave.Format

/-!
# Parameters from pingweave.ini

`get` and `getInt` of `IniParser`, and `get_int_param_from_ini` of `common.cpp`. A parser is what
`load` has made of the file; `none` stands for a file that it cannot open, and for
`PINGWEAVE_FAILURE`.
-/

namespace Pingweave
set_option autoImplicit false

structure IniParser where
  config_ : Text → Text → Option Text

namespace IniParser

def get (parser : IniParser) (sect key : Text) : Text := (parser.config_ sect key).getD []

/-- `isspace` in the C locale. -/
def isSpace (c : Char) : Bool := c.toNat = 32 || (9 ≤ c.toNat && c.toNat ≤ 13)

/-- The sign in front of a number, `true` for a minus, and what follows it. -/
def sign : Text → Bool × Text
  | '-' :: rest => (true, rest)
  | '+' :: rest => (false, rest)
  | rest => (false, rest)

/-- A value that does not fit the type `int` is an exception. -/
def toInt (value : Int) : Option Int :=
  if -2147483648 ≤ value ∧ value ≤ 2147483647 then some value else none

/-- `std::stoi`: what follows the digits is ignored, and `none` is an exception. -/
def stoi (s : Text) : Option Int :=
  let signed := sign (s.dropWhile isSpace)
  let digits := signed.2.takeWhile Char.isDigit
  let n : Nat := Nat.ofDigitChars 10 digits 0
  if digits = [] then none else toInt (if signed.1 then -n else n)

def getInt (parser : IniParser) (sect key : Text) : Int := (stoi (parser.get sect key)).getD (-1)

end IniParser

def getIntValueFromIni (parser : IniParser) (sect key : Text) : Option Int :=
  let value := parser.getInt sect key
  if value = -1 then none else some value

def sectParam : Text := ['p', 'a', 'r', 'a', 'm']

def getIntParamFromIni (file : Option IniParser) (key : Text) : Option Int :=
  file.bind fun parser => getIntValueFromIni parser sectParam key

end Pingweave
