/-!
# Result codes

The members of the `Result` enumeration of `tr69_agent_public.h` that the modelled functions return.
-/

namespace CodeFactory

inductive Result where
  | tcmagentOk
  | cacheTypeError
  | nodeNameError | nodeNotFound | nodeTypeError | nodeValueError | nodeAccesslistCheckError | nodeAccessError
  | nodeNumError
  | instancesIsFull
  | attributeTypeError | attributeNotificationError | attributeAccesslistError
  | attributeNameError | attributeAccessError | attributeNeedrebootError | attributeNextlevelnumError | attributeRangeError
  | attributeStyleError | attributeMaxnumofentriesError | attributeDefaultvallueError
  | nodeNeedNotification | nodeNeedNotificationPassive
  | eventNameError | eventTypeError | eventNotFound
  | msgNameLengthError | msgNameLengthOptionLengthError | msgValueTypeLengthError | msgValueTypeError
  | mallocFailure
  | httpAuthError | httpFormatError
  | socketIoctlError | socketFdsetError | socketRwError | socketTimeout | sslLibError
  | stunErrTimeout | stunErrSocketError | stunErrFailed | stunErrNeedAuth
  deriving DecidableEq, Repr

end CodeFactory
