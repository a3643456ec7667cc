import Aigentik.Strings.Text
import Mathlib.Data.Int.Notation

namespace Aigentik

open Strings

inductive Message.Channel
  | notification | sms | email | chat | gvoice
  deriving DecidableEq

structure Message where
  id : Str
  channel : Message.Channel
  sender : Str
  senderName : Option Str
  body : Str
  subject : Str := []
  packageName : Str := []
  timestamp : ℤ
  threadId : Str := []
  deriving DecidableEq

end Aigentik
