import Aigentik.Platform

namespace Aigentik.ChannelManager

open Strings

inductive Channel
  | sms | gvoice | email
  deriving DecidableEq

def Channel.entries : List Channel := [.sms, .gvoice, .email]

def Channel.name : Channel → Str
  | .sms => "SMS"
  | .gvoice => "GVOICE"
  | .email => "EMAIL"

/-- One line of `statusSummary()`, from the two reads of the channel's state. -/
def statusLine (ch : Channel) (icon active : Bool) : Str :=
  (if icon then "[ON]".toList else "[OFF]") ++ " " ++ ch.name ++ ": " ++
    (if active then "active".toList else "paused")

/-- `none` as the channel stands for all of them; the caller sees SMS instead. -/
def parseToggleCommand (P : Platform) (input : Str) : Option (Channel × Bool) :=
  let lower := P.lowercase input
  let has (w : String) : Bool := contains lower w
  let enable : Option Bool :=
    if has "start" || has "enable" || has "resume" || has "turn on" then some true
    else if has "stop" || has "disable" || has "pause" || has "turn off" then some false
    else none
  let channel : Option Channel :=
    if has "sms" || has "text" || has "phone" || has "direct" then some .sms
    else if has "voice" || has "gvoice" || has "google voice" then some .gvoice
    else if has "email" || has "mail" || has "gmail" then some .email
    else if has "all" || has "everything" then some .sms
    else none
  enable.bind fun e ↦ channel.map fun c ↦ (c, e)

end Aigentik.ChannelManager
