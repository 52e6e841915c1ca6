/-!
# Return codes

`tcmRet` of `tcm.h`, in the order of the source.
-/

namespace CodeFactory.Oal

/-- `tcmRet`: the return codes of all functions of the library. -/
inductive TcmRet where
  | success
  | failure
  | resourceExceeded
  | invalidParameter
  | internalError
  | disconnected
  | timedOut
  | successRebootRequired
  | invalidArguments
  | successUnrecognizedDataIgnored
  | noMoreInstances
  | invalidImage
  | invalidParamValue
  | objectNotFound
  | conflibReadError
  | writeFlashError
  | conflibParameterInvalid
  | conflibWriteError
  | invalidDuplicate
  | invalidExist
  | invalidSame
  | reachMaxNum
  deriving DecidableEq, Repr

end CodeFactory.Oal
