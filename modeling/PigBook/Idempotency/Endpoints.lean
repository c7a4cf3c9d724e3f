import PigBook.Idempotency.ExecuteCreate
import PigBook.Inventory.Requests
import PigBook.Inventory.Singles

/-
  The two endpoints that create something under a key.

  Key definitions include:
    * `bookingRequest`, `blackoutRequest`

  Key theorems include:
    * `bookingRequest_allowed`, `blackoutRequest_allowed`
-/

------------------------------------------------------------
-- Requests
------------------------------------------------------------

namespace PigBook.Idempotency

open ReadCommitted

/- All resources, with their bookings. -/
abbrev Inventory := Uuid → Cell

/-
  The operation answers with the response that it wants to be
  stored; both operations answer nothing else.
-/
def storedReply :
    Reply → Prog inventory Inventory StoredResponse
| .stored response => .done response
| _ => .fail (.runtimeError "")

/- POST /bookings. -/
def bookingRequest
    (scope : Scope)
    (key : Uuid)
    (reqHash : String)
    (rid : Uuid)
    (startsAt endsAt : Datetime) :
    DeskRequest inventory Inventory :=
  .create scope.principalId key reqHash
    (((createBooking rid scope startsAt endsAt).atCell rid).bind
      storedReply)

/- POST /admin/blackouts. -/
def blackoutRequest
    (scope : Scope)
    (key : Uuid)
    (reqHash : String)
    (rid : Uuid)
    (startsAt endsAt : Datetime) :
    DeskRequest inventory Inventory :=
  .create scope.principalId key reqHash
    (((createBlackout rid scope startsAt endsAt).atCell rid).bind
      storedReply)

end PigBook.Idempotency

------------------------------------------------------------
-- One Transaction
------------------------------------------------------------

namespace PigBook.Idempotency

open ReadCommitted

variable {rid : Uuid} {scope : Scope}
variable {startsAt endsAt : Datetime}

theorem storedReply_single (reply : Reply) :
    (storedReply reply).Single := by
  cases reply with
  | stored response => trivial
  | _ => trivial

/- Both operations are part of the transaction of their key. -/
theorem bookingRequest_allowed
    (key : Uuid)
    (reqHash : String) :
    (bookingRequest scope key reqHash rid startsAt
      endsAt).Allowed :=
  (single_atCell rid createBooking_single).bind
    storedReply_single

theorem blackoutRequest_allowed
    (key : Uuid)
    (reqHash : String) :
    (blackoutRequest scope key reqHash rid startsAt
      endsAt).Allowed :=
  (single_atCell rid createBlackout_single).bind
    storedReply_single

end PigBook.Idempotency
