import Aigentik.Effects.Program
import Aigentik.Platform

/-! An event is created by inserts into three tables of the provider, one after another. -/

namespace Aigentik.EventCreation

open Strings Effects

inductive ReminderMethod
  | notification | email | sms | alert
  deriving DecidableEq

structure CalendarReminder where
  method : ReminderMethod
  minutesBefore : ℤ
  deriving DecidableEq

structure EventCreateParams where
  title : Str
  description : Option Str
  location : Option Str
  startTime : Int64
  endTime : Int64
  allDay : Bool
  calendarId : Int64
  attendees : List Str
  reminders : List CalendarReminder
  recurrenceRule : Option Str
  deriving DecidableEq

/-- The values of an insert into one of the tables. -/
inductive Row
  | event (calendarId : Int64) (title : Str) (description eventLocation : Option Str) (dtstart dtend : Int64)
      (allDay hasAttendeeData : Bool) (status : ℤ) (rrule : Option Str)
  | attendee (eventId : Int64) (email : Str) (status : ℤ)
  | reminder (eventId : Int64) (minutes method : ℤ)
  deriving DecidableEq

/-- What the provider does with an insert; a row that is inserted has a `Uri`, which may have no last path
segment. -/
inductive InsertResult
  | threw (e : Throwable)
  | nullUri
  | inserted (lastPathSegment : Option Str)

inductive Thrown
  | exception (e : Throwable)
  | stackOverflowError
  deriving DecidableEq

abbrev sig : Sig where
  Op := Row
  Resp _ := InsertResult

abbrev Call (α : Type) := Prog sig Thrown α

/-- `contentResolver.insert(_, _)?.lastPathSegment`, with an option for each of the two nulls. -/
def insert (row : Row) : Call (Option (Option Str)) :=
  .call row fun
    | .threw e => .throw (.exception e)
    | .nullUri => return none
    | .inserted lastPathSegment => return some lastPathSegment

/-- The private extension is what its own body calls, not the function of the library; `stack` is the number of
frames that are left. -/
def toLongOrNull : ℕ → Option Str → Call (Option Int64)
  | 0, _ => .throw .stackOverflowError
  | _ + 1, none => return none
  | stack + 1, some s => toLongOrNull stack (some s)

def toCalendarMethod : ReminderMethod → ℤ
  | .notification => 1
  | .email => 2
  | .sms => 3
  | .alert => 1

def eventRow (params : EventCreateParams) : Row :=
  .event params.calendarId params.title params.description params.location params.startTime params.endTime
    params.allDay (!params.attendees.isEmpty) 1 params.recurrenceRule

def attendeeRow (eventId : Int64) (email : Str) : Row := .attendee eventId email 0

def reminderRow (eventId : Int64) (reminder : CalendarReminder) : Row :=
  .reminder eventId reminder.minutesBefore (toCalendarMethod reminder.method)

/-- What stands after `?:`. -/
def failedToCreate : Throwable := ⟨"Exception", some "Failed to create event"⟩

def parseEventId (stack : ℕ) : Option (Option Str) → Call Int64
  | some (some lastPathSegment) => do
    match ← toLongOrNull stack (some lastPathSegment) with
    | some eventId => return eventId
    | none => .throw (.exception failedToCreate)
  | some none | none => .throw (.exception failedToCreate)

/-- `forEach` over the rows to be inserted; what the inserts return is not looked at. -/
def insertEach : List Row → Call Unit
  | [] => return ()
  | row :: rest => do
    let _ ← insert row
    insertEach rest

/-- The handler is for exceptions; a `StackOverflowError` is none. -/
def createEvent (stack : ℕ) (params : EventCreateParams) : Call (Except Throwable Int64) :=
  Prog.tryCatch (do
    let eventUri ← insert (eventRow params)
    let eventId ← parseEventId stack eventUri
    insertEach (params.attendees.map (attendeeRow eventId))
    insertEach (params.reminders.map (reminderRow eventId))
    return .ok eventId) fun
    | .exception e => return .error e
    | .stackOverflowError => .throw .stackOverflowError

/-! The tables -/

/-- The rows of the tables, and the number of inserts of the call. -/
structure Resolver where
  rows : List Row
  inserts : ℕ

/-- The provider, by its answer to each insert of the call. -/
def answer (answers : ℕ → InsertResult) (row : Row) (resolver : Resolver) : InsertResult × Resolver :=
  (answers resolver.inserts,
    match answers resolver.inserts with
    | .threw _ | .nullUri => { resolver with inserts := resolver.inserts + 1 }
    | .inserted _ => ⟨resolver.rows ++ [row], resolver.inserts + 1⟩)

def created (answers : ℕ → InsertResult) (stack : ℕ) (params : EventCreateParams) (before : List Row) :
    Except Thrown (Except Throwable Int64) × Resolver :=
  (createEvent stack params).exec (answer answers) ⟨before, 0⟩

/-- The call returns; its success comes with all the rows, its failure with none. -/
def AllOrNothing (params : EventCreateParams) (before : List Row)
    (call : Except Thrown (Except Throwable Int64) × Resolver) : Prop :=
  match call.1 with
  | .ok (.ok eventId) => call.2.rows = before ++ eventRow params :: params.attendees.map (attendeeRow eventId) ++
      params.reminders.map (reminderRow eventId)
  | .ok (.error _) => call.2.rows = before
  | .error _ => False

theorem toLongOrNull_overflows (stack : ℕ) (s : Str) : toLongOrNull stack (some s) = .throw .stackOverflowError := by
  induction stack with
  | zero => rfl
  | succ stack ih => exact ih

/-- What a call comes to, by the answer to its first insert. -/
def outcome (before : List Row) (params : EventCreateParams) :
    InsertResult → Except Thrown (Except Throwable Int64) × Resolver
  | .threw e => (.ok (.error e), ⟨before, 1⟩)
  | .nullUri => (.ok (.error failedToCreate), ⟨before, 1⟩)
  | .inserted none => (.ok (.error failedToCreate), ⟨before ++ [eventRow params], 1⟩)
  | .inserted (some _) => (.error .stackOverflowError, ⟨before ++ [eventRow params], 1⟩)

theorem created_eq (answers : ℕ → InsertResult) (stack : ℕ) (params : EventCreateParams) (before : List Row) :
    created answers stack params before = outcome before params (answers 0) := by
  unfold created createEvent insert
  rw [Prog.call_bind, Prog.call_tryCatch, Prog.exec_call]
  simp only [answer]
  cases answers 0 with
  | threw e => rfl
  | nullUri => rfl
  | inserted lastPathSegment =>
    cases lastPathSegment with
    | none => rfl
    | some s =>
      simp only [Prog.pure_eq, Prog.ret_bind, parseEventId, toLongOrNull_overflows]
      rfl

/-- The call is all or nothing exactly if the event's row is not inserted. -/
theorem createEvent_allOrNothing_iff (answers : ℕ → InsertResult) (stack : ℕ) (params : EventCreateParams)
    (before : List Row) : AllOrNothing params before (created answers stack params before) ↔
      ∀ lastPathSegment, answers 0 ≠ .inserted lastPathSegment := by
  rw [created_eq]
  cases answers 0 with
  | threw e => simp [AllOrNothing, outcome]
  | nullUri => simp [AllOrNothing, outcome]
  | inserted lastPathSegment => cases lastPathSegment <;> simp [AllOrNothing, outcome]

def standup : EventCreateParams :=
  ⟨"Standup", none, none, 0, 1800000, false, 1, [], [⟨.notification, 15⟩], none⟩

/-- An id that parses is never read: the event is left without its reminder, and the call does not return. -/
theorem inserted_event_overflows : created (fun _ ↦ .inserted (some "42".toList)) 1000 standup [] =
      (.error .stackOverflowError, ⟨[eventRow standup], 1⟩) ∧
    ¬AllOrNothing standup [] (created (fun _ ↦ .inserted (some "42".toList)) 1000 standup []) := by
  have hcreated := created_eq (fun _ ↦ .inserted (some "42".toList)) 1000 standup []
  refine ⟨hcreated, ?_⟩
  rw [hcreated]
  exact not_false

end Aigentik.EventCreation
