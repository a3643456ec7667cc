import Aigentik.Platform
import Mathlib.Data.Set.Insert

/-! Events read from the calendar provider, and the slots that are suggested between them. -/

namespace Aigentik.CalendarService

open Strings

inductive EventStatus
  | tentative | confirmed | canceled
  deriving DecidableEq

/-- The fields of a `CalendarEvent` that are read from the provider. -/
structure CalendarEvent where
  id : Int64
  calendarId : Int64
  title : Str
  description : Option Str
  location : Option Str
  startTime : Int64
  endTime : Int64
  allDay : Bool
  color : Option ℤ
  status : EventStatus
  organizer : Option Str
  isRecurring : Bool
  recurrenceRule : Option Str
  deriving DecidableEq

/-- A row of the provider's table of events. `DTEND` is null for a recurring event; what it takes of the
calendar are the begins and ends of its occurrences. -/
structure DeviceEvent where
  id : Int64
  calendarId : Int64
  title : Option Str
  description : Option Str
  location : Option Str
  dtstart : Int64
  dtend : Option Int64
  allDay : ℤ
  color : Option ℤ
  status : Option ℤ
  organizer : Option Str
  rrule : Option Str
  occurrences : Set (ℤ × ℤ)
  once : rrule = none → ∀ finish, dtend = some finish → occurrences = {(dtstart.toInt, finish.toInt)}

/-- What the provider answers: an exception, no cursor, or the rows of its table. -/
abbrev Provider := Except Throwable (Option (List DeviceEvent))

def toEventStatus (status : ℤ) : EventStatus :=
  if status = 0 then .tentative else if status = 2 then .canceled else .confirmed

/-- A row without a title makes the constructor throw, and is left out. -/
def cursorToEvent (row : DeviceEvent) : Option CalendarEvent :=
  match row.title with
  | none => none
  | some title => some {
    id := row.id
    calendarId := row.calendarId
    title
    description := row.description
    location := row.location
    startTime := row.dtstart
    endTime := row.dtend.getD 0
    allDay := row.allDay = 1
    color := row.color
    status := row.status.elim .confirmed toEventStatus
    organizer := row.organizer
    isRecurring := row.rrule.isSome
    recurrenceRule := row.rrule }

/-- `(DTSTART >= ?) AND (DTEND <= ?)`, which a null `DTEND` does not satisfy. -/
def selected (startDate endDate : Int64) (row : DeviceEvent) : Bool :=
  startDate ≤ row.dtstart && row.dtend.any fun dtend ↦ dtend ≤ endDate

def getEvents (provider : Provider) (startDate endDate : Int64) : Except Throwable (List CalendarEvent) :=
  match provider with
  | .error e => .error e
  | .ok none => .ok []
  | .ok (some rows) => .ok ((rows.filter (selected startDate endDate)).filterMap cursorToEvent)

abbrev Slot := Int64 × Int64

def conflicts (existingEvents : List CalendarEvent) (currentTime slotEnd : Int64) : Bool :=
  existingEvents.any fun event ↦ currentTime < event.endTime && event.startTime < slotEnd

/-- The loop, for at most `fuel` rounds. -/
def freeSlots (existingEvents : List CalendarEvent) (durationMillis endDate : Int64) :
    ℕ → Int64 → List Slot → Option (List Slot)
  | 0, _, _ => none
  | fuel + 1, currentTime, suggestions =>
    if currentTime + durationMillis ≤ endDate then
      let slotEnd := currentTime + durationMillis
      if conflicts existingEvents currentTime slotEnd then
        freeSlots existingEvents durationMillis endDate fuel (currentTime + 1800000) suggestions
      else
        let suggestions := suggestions ++ [(currentTime, slotEnd)]
        if 5 ≤ suggestions.length then some suggestions
        else freeSlots existingEvents durationMillis endDate fuel (currentTime + 1800000) suggestions
    else some suggestions

/-- `durationMinutes * 60 * 1000L`: the first product is in 32 bits. -/
def durationMillis (durationMinutes : Int32) : Int64 := (durationMinutes * 60).toInt64 * 1000

/-- An exception of `getEvents` is taken for an empty calendar. -/
def existingEvents (provider : Provider) (startDate endDate : Int64) : List CalendarEvent :=
  match getEvents provider startDate endDate with
  | .ok events => events
  | .error _ => []

/-- The result, if the loop ends within `fuel` rounds. -/
def suggestEventTimes (fuel : ℕ) (provider : Provider) (durationMinutes : Int32) (startDate endDate : Int64) :
    Option (Except Throwable (List Slot)) :=
  (freeSlots (existingEvents provider startDate endDate) (durationMillis durationMinutes) endDate fuel startDate []).map
    .ok

end Aigentik.CalendarService
