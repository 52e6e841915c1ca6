import CodeFactory.Lib.Outcome
import CodeFactory.Tr69.Text

/-!
# SOAP elements

What `xml2soap` makes of a packet: the elements in document order, without their nesting, and the namespaces that were declared.
The buffers the source copies texts into are taken to be large enough, and `malloc` is taken to succeed.
-/

namespace CodeFactory.Soap

open Tr69 (Text sameWord)

def soapEnv1 : Text := "http://schemas.xmlsoap.org/soap/envelope/".toList

def soapEnv2 : Text := "http://www.w3.org/2003/05/soap-envelope".toList

def soapCwmp : Text := "urn:dslforum-org:cwmp-1-0".toList

/-- `NameSpace`: a prefix and what it stands for. -/
structure NameSpace where
  nsname : Text
  nsvalue : Text
  deriving DecidableEq, Repr

/-- `SOAPElement`: the name, its prefix, the text of the element, null if it has none, and its `xsi:type`. -/
structure SOAPElement where
  name : Text
  nstr : Text
  data : Option Text
  type : Text
  deriving DecidableEq, Repr

/-- The part of `SOAP` that the parser reads. -/
structure Packet where
  version : Int
  nameSpaces : List NameSpace
  element : List SOAPElement
  deriving DecidableEq, Repr

def getRemoteNamespace (nsPre : Text) (soap : Packet) : Option Text :=
  (soap.nameSpaces.find? fun ns => ns.nsname = nsPre).map NameSpace.nsvalue

/-- The namespace of an envelope of the packet's version. -/
def Packet.soapEnv (soap : Packet) : Text := if soap.version = 1 then soapEnv1 else soapEnv2

def SOAPElement.Named (e : SOAPElement) (word : String) : Prop := e.name = word.toList

instance (e : SOAPElement) (word : String) : Decidable (e.Named word) := inferInstanceAs (Decidable (_ = _))

/-- A character that `isspace` accepts. -/
def isSpace (c : Char) : Bool := c = ' ' || c = '\t' || c = '\n' || c = '\r' || c.toNat = 11 || c.toNat = 12

/-- The number a row of digits stands for, as far as it goes. -/
def digitsValue (str : Text) : Nat := (str.takeWhile Char.isDigit).foldl (fun n c => 10 * n + (c.toNat - 48)) 0

/-- `atoi`, a number that is too large cut to the range of `int`. -/
def atoi (str : Text) : Int :=
  match str.dropWhile isSpace with
  | '-' :: rest => max (-2147483648) (-(digitsValue rest : Int))
  | '+' :: rest => min 2147483647 (digitsValue rest)
  | rest => min 2147483647 (digitsValue rest)

/-- The texts the parser takes for true: `1`, and `true` in any case. -/
def isTrue (str : Text) : Bool := str = "1".toList || sameWord str "true".toList

/-- What the source makes of a text that may be missing: `strcpy` of it, or the empty string. -/
def textOf (data : Option Text) : Text := data.getD []

/-- What the source makes of a number that may be missing: `atoi` of it, or 0. -/
def intOf (data : Option Text) : Int := (data.map atoi).getD 0

/-- What the source makes of a boolean that may be missing. -/
def flagOf (data : Option Text) : Bool := (data.map isTrue).getD false

/-- The text of the last element of the given name: what is left in a field of a structure, zero at first, that each element of
this name is copied into. -/
def lastData (word : String) (els : List SOAPElement) : Option Text :=
  ((els.filter (·.Named word)).getLast?).bind SOAPElement.data

example : atoi " -12x".toList = -12 := by decide
example : atoi "7".toList = 7 := by decide

end CodeFactory.Soap
