import Aigentik.Platform

namespace Aigentik.AgentLLMFacade

open Strings

structure CommandResult where
  action : Str
  target : Option Str
  content : Option Str
  confirmRequired : Bool
  query : Option Str := none
  deriving DecidableEq

/-- How one request to the model ends: no model could be loaded, the generation
threw, or it produced text. -/
inductive ModelOutcome
  | unavailable
  | threw
  | text (s : Str)
  deriving DecidableEq

/-- A text for the outside, and whether the model wrote it. The transports only
see the text. -/
inductive Reply
  | generated (s : Str)
  | fixed (s : Str)
  deriving DecidableEq

def Reply.text : Reply → Str
  | .generated s | .fixed s => s

structure Prompt where
  system : Str
  user : Str
  deriving DecidableEq

variable (agentName ownerName : Str)

def fallbackSmsReply (senderName : Option Str) : Str :=
  "Hi " ++ senderName.getD "there" ++ ", " ++ agentName ++ " here — " ++
    "personal AI assistant for " ++ ownerName ++ ". " ++ ownerName ++ " will get back to you soon."

def signature : Str :=
  "\n\n— " ++ agentName ++ ", personal agent of " ++ ownerName ++ ". " ++
    "If you need to reach " ++ ownerName ++ " urgently, include \"" ++ ownerName ++
    "\" in your message."

def remark (label : Str) (value : Option Str) : Str :=
  match value with
  | some v => label ++ v ++ ". "
  | none => []

/-- The handlers pass no conversation history. -/
def smsPrompt (senderName : Option Str) (senderPhone message : Str)
    (relationship instructions : Option Str) : Prompt where
  system := "You are " ++ agentName ++ ", an AI personal assistant for " ++ ownerName ++ ". " ++
    "Reply to a text message sent to " ++ ownerName ++ " from " ++ senderName.getD senderPhone ++
    ". " ++ remark "Relationship: " relationship ++ remark "IMPORTANT: " instructions ++
    "Be concise and natural — this is a text message. " ++
    "Do NOT add a signature. Reply with message text only."
  user := "Reply to: \"" ++ message ++ "\" from " ++ senderName.getD senderPhone

def smsReply (senderName : Option Str) : ModelOutcome → Reply
  | .text raw =>
    if trim raw = [] then
      .fixed (fallbackSmsReply agentName ownerName senderName ++ signature agentName ownerName)
    else .generated (trim raw ++ signature agentName ownerName)
  | .unavailable | .threw =>
    .fixed (fallbackSmsReply agentName ownerName senderName ++ signature agentName ownerName)

def chatPrompt (message : Str) : Prompt where
  system := "You are " ++ agentName ++ ", an AI personal assistant for " ++ ownerName ++ ". " ++
    "Have a natural, helpful conversation. " ++
    "You can manage SMS replies, look up contacts, and more. " ++
    "Be concise and direct. Do not add any signature or sign-off."
  user := message

def chatReply : ModelOutcome → Reply
  | .unavailable => .fixed "Model is still loading — please try again in a moment."
  | .threw => .fixed "I couldn't generate a response. Please try again."
  | .text raw =>
    if trim raw = [] then .fixed "I couldn't generate a response. Please try again."
    else .generated (trim raw)

def interpretPrompt (commandText : Str) : Prompt where
  system := "You interpret commands for an AI assistant. " ++
    "Return ONLY valid JSON with no extra text: " ++
    "\x7b\"action\":\"string\",\"target\":\"string or null\",\"content\":\"string or null\",\"query\":\"string or null\"\x7d " ++
    "Actions: send_sms, find_contact, get_contact_phone, " ++
    "never_reply_to, always_reply_to, set_contact_instructions, " ++
    "check_email, sync_contacts, status, unknown. " ++
    "Examples: " ++
    "\"what's Sarah's number\" -> \x7b\"action\":\"get_contact_phone\",\"target\":\"Sarah\",\"content\":null,\"query\":null\x7d " ++
    "\"find John\" -> \x7b\"action\":\"find_contact\",\"target\":\"John\",\"content\":null,\"query\":null\x7d " ++
    "\"never reply to spam callers\" -> \x7b\"action\":\"never_reply_to\",\"target\":\"spam callers\",\"content\":null,\"query\":null\x7d " ++
    "\"status\" -> \x7b\"action\":\"status\",\"target\":null,\"content\":null,\"query\":null\x7d " ++
    "\"hello how are you\" -> \x7b\"action\":\"unknown\",\"target\":null,\"content\":null,\"query\":null\x7d"
  user := "Command: \"" ++ commandText ++ "\""

/-! The keyword parser -/

variable (P : Platform)

def whatsNumberRegex : Re :=
  .any [.cat [.text "what", .alt .dot .empty, .text "s"], .text "what is", .text "get",
    .text "phone", .text "number", .text "'s", .text "whats"]

def instructionNameRegex : Re :=
  .cat [.any [.text "to", .text "for", .text "with"], .plus true .space,
    .group 1 (.plus true (.one P.isWordChar))]

def instructionWordsRegex : Re :=
  .any (["always", "reply", "formally", "casually", "briefly", "professionally", "friendly",
    "short", "long", "formal", "texting", "respond", "when", "be", "to", "for", "with"].map
      fun w ↦ .text w)

def ifEmptyNone (s : Str) : Option Str := if s = [] then none else some s

def parseSimpleCommand (text : Str) : CommandResult :=
  let lower := trim (P.lowercase text)
  let has (w : String) : Bool := contains lower w
  if startsWith lower "text " || startsWith lower "send text" then
    let rest := trim (removePrefix (removePrefix lower "text ") "send text ")
    let target := rest.takeWhile (· != ' ')
    let content := if rest.contains ' ' then some (rest.drop (target.length + 1)) else none
    ⟨"send_sms", some target, content, false, none⟩
  else if has "number" || (has "phone" && has "what") then
    ⟨"get_contact_phone", ifEmptyNone (trim (whatsNumberRegex.replaceAll [] lower)), none, false,
      none⟩
  else if startsWith lower "find " || startsWith lower "look up " then
    ⟨"find_contact", some (trim (removePrefix (removePrefix lower "find ") "look up ")), none,
      false, none⟩
  else if has "never reply" then
    ⟨"never_reply_to", some (trim (substringAfter lower "never reply to ")), none, false, none⟩
  else if has "always reply" && !has "formally" && !has "casually" && !has "briefly" then
    ⟨"always_reply_to", some (trim (substringAfter lower "always reply to ")), none, false, none⟩
  else if (has "reply" || has "texting" || has "respond") &&
      (has "formally" || has "casually" || has "briefly" || has "professionally" ||
        has "friendly" || has "short" || has "long" || has "formal") then
    let name := match (instructionNameRegex P).find lower with
      | some m => m.group 1
      | none => trim (instructionWordsRegex.replaceAll [] lower)
    ⟨"set_contact_instructions", ifEmptyNone name, some lower, false, none⟩
  else if lower = "status" || lower = "check status" then ⟨"status", none, none, false, none⟩
  else if has "sync" && has "contact" then ⟨"sync_contacts", none, none, false, none⟩
  else if has "check" && has "email" then ⟨"check_email", none, none, false, none⟩
  else ⟨"unknown", none, some text, false, none⟩

def present (s : Str) : Option Str := if isBlank s || s = "null" then none else some s

def parseCommandJson (json : Str) : CommandResult :=
  match P.jsonObject json with
  | some optString =>
    ⟨(present (optString "action")).getD "unknown", present (optString "target"),
      present (optString "content"), false, present (optString "query")⟩
  | none => parseSimpleCommand P json

def thinkRegex : Re :=
  .cat [.lit P.fold "<think>", .star false .anything, .lit P.fold "</think>"]

def fenceRegex : Re :=
  .any [.text "```json", .text "```", .cat [.text "<|im_end|>", .star true .dot]]

/-- What `interpretCommand` makes of the outcome of its request. -/
def interpretReply (commandText : Str) : ModelOutcome → CommandResult
  | .unavailable | .threw => parseSimpleCommand P commandText
  | .text raw =>
    let clean := trim (fenceRegex.replaceAll [] ((thinkRegex P).replaceAll [] raw))
    let result := parseCommandJson P clean
    if result.action = "unknown" then parseSimpleCommand P commandText else result

end Aigentik.AgentLLMFacade
