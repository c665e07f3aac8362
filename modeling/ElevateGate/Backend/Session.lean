import ElevateGate.Backend.Models
import ElevateGate.Encoding.Base64
import ElevateGate.Interaction.Database
import ElevateGate.Interaction.Program
import ElevateGate.Platform.Errors

/-!
# Database sessions

The operations that an endpoint performs, and what each does to the database: statements see the
session's own versions over the committed rows, an update re-evaluates its `WHERE` on the row it
locks, an insert checks the unique indexes, and a commit publishes the whole transaction. What
the database or the operating system is free to choose is an argument of the step.
-/

namespace ElevateGate.Backend

open Interaction Time

/-- What one call of `issue_approval` was about. It accompanies the signature that the call makes
so that statements can speak about it; nothing reads it. -/
structure Issuance where
  elevationRequest : ElevationRequest
  device : Device
  expiresAt : Datetime
  nonce : String
  deriving DecidableEq

/-- The rows that a statement sees, with the identifiers of each table in the order in which the
database happens to return them. -/
structure Snapshot where
  row : (k : Key) → Option (Row k)
  ids : Table → List Nat

/-- The rows of a table. -/
def Snapshot.rows (snapshot : Snapshot) (t : Table) : List t.Record :=
  (snapshot.ids t).filterMap fun id => (snapshot.row ⟨t, id⟩).map Row.record

/-- The operations of an endpoint. -/
inductive Op
  /-- A `SELECT`. -/
  | query
  /-- `UPDATE ... WHERE ... RETURNING` on one row. The function answers `none` where the row does
  not satisfy the `WHERE`. -/
  | update (k : Key) (assign : Row k → Option (Row k))
  /-- `INSERT` of the row that the function makes from a fresh primary key and the start time of
  the transaction, the value of `now()`. -/
  | insert (t : Table) (make : (id : Nat) → Datetime → Row ⟨t, id⟩)
  | commit
  /-- Closing the session, which rolls back what was not committed. -/
  | close
  /-- `datetime.now(timezone.utc)`. -/
  | now
  /-- `secrets.token_urlsafe`. -/
  | tokenUrlsafe (nbytes : Nat)
  /-- `uuid.uuid4`. -/
  | uuid4
  /-- `sign_payload`. -/
  | signPayload (issuance : Issuance) (payload : List UInt8)

/-- The answer to an operation. -/
def Res : Op → Type
  | .query => Snapshot
  | .update k _ => Option (Row k)
  | .insert t _ => Except PyError t.Record
  | .commit => Unit
  | .close => Unit
  | .now => Datetime
  | .tokenUrlsafe _ => String
  | .uuid4 => Uuid
  | .signPayload _ _ => List UInt8

/-- What is not determined by the program. -/
inductive Choice
  | unit
  | order (ids : Table → List Nat)
  | bytes (random : List UInt8)
  | uuid (random : Uuid)

/-- A session. -/
abbrev Sid := Nat

/-- The database server, the clock and the record of the signatures made. -/
structure State where
  db : Database Key Row Sid
  nextId : Table → Nat
  txStart : Sid → Option Datetime
  clock : Datetime
  signed : List (Issuance × List UInt8)

/-- The program of an endpoint or of a part of it. -/
abbrev Handler (α : Type) := Program Op Res PyError α

namespace State

variable (s : State)

/-- Start the session's transaction if it is not in one. -/
def begin_ (i : Sid) : State :=
  { s with txStart := Function.update s.txStart i (some ((s.txStart i).getD s.clock)) }

/-- `now()`: the start time of the session's transaction. -/
def txNow (i : Sid) : Datetime :=
  (s.txStart i).getD s.clock

/-- Whether some version of another session keeps a row from being inserted for now: it either
clashes itself or replaces a committed row that clashes. -/
def blocked (i : Sid) (t : Table) (record : t.Record) : Bool :=
  (List.range (s.nextId t)).any fun id =>
    match s.db.dirty ⟨t, id⟩ with
    | some (j, version) =>
      j != i && (version.any (fun row => t.clash record row.record) ||
        (s.db.committed ⟨t, id⟩).any fun row => t.clash record row.record)
    | none => false

/-- Whether a row that the session sees violates a unique index together with a new one. -/
def violates (i : Sid) (t : Table) (record : t.Record) : Bool :=
  (List.range (s.nextId t)).any fun id =>
    (s.db.view i ⟨t, id⟩).any fun row => t.clash record row.record

/-- Store a new row under the next identifier of its table. -/
def insertRow (i : Sid) (t : Table) (row : Row ⟨t, s.nextId t⟩) : State :=
  { s with db := s.db.write i ⟨t, s.nextId t⟩ (some row)
           nextId := Function.update s.nextId t (s.nextId t + 1) }

/-- Publish the session's versions and end its transaction. -/
def commit (i : Sid) : State :=
  { s with db := s.db.commit i, txStart := Function.update s.txStart i none }

/-- Drop the session's versions and end its transaction. -/
def rollback (i : Sid) : State :=
  { s with db := s.db.rollback i, txStart := Function.update s.txStart i none }

end State

/-- The URL-safe text of random bytes. -/
def urlsafeText (random : List UInt8) : String :=
  String.ofList ((Base64.encode .urlSafe random).filter (· ≠ '='))

/-- The text of some bytes is not empty: no padding precedes a symbol. -/
theorem urlsafeText_ne_empty {random : List UInt8} (h : random ≠ []) : urlsafeText random ≠ "" := by
  obtain ⟨a, random, rfl⟩ := List.exists_cons_of_ne_nil h
  have hencode : ∃ rest, Base64.encode .urlSafe (a :: random) =
      Base64.symbol .urlSafe (a.toNat / 4) :: rest := by
    rcases random with _ | ⟨b, _ | ⟨c, rest⟩⟩ <;> exact ⟨_, rfl⟩
  obtain ⟨rest, hrest⟩ := hencode
  intro hempty
  have hlist := congrArg String.toList hempty
  rw [urlsafeText, String.toList_ofList, hrest,
    List.filter_cons_of_pos (by simp [Base64.symbol_ne_pad])] at hlist
  exact List.cons_ne_nil _ _ hlist

variable (sign : List UInt8 → List UInt8)

/-- Perform an operation of session `i`, or `none` where it has to wait for another session or
where the choice does not fit the operation. -/
def perform (i : Sid) : (op : Op) → Choice → State → Option (Res op × State)
  | .query, .order ids, s =>
    if Table.all.all fun t => decide ((ids t).Perm (List.range (s.nextId t))) then
      some (⟨s.db.view i, ids⟩, s.begin_ i)
    else none
  | .update k assign, _, s =>
    match s.db.view i k with
    | none => some (none, s.begin_ i)
    | some row =>
      match assign row with
      | none => some (none, s.begin_ i)
      | some row' =>
        if s.db.free i k then
          some (some row', { s.begin_ i with db := s.db.write i k (some row') })
        else none
  | .insert t make, _, s =>
    let row := make (s.nextId t) (s.txNow i)
    if s.blocked i t row.record then none
    else if s.violates i t row.record then
      some (.error .integrityError,
        { s.begin_ i with nextId := Function.update s.nextId t (s.nextId t + 1) })
    else some (.ok row.record, (s.begin_ i).insertRow i t row)
  | .commit, _, s => some ((), s.commit i)
  | .close, _, s => some ((), s.rollback i)
  | .now, _, s => some (s.clock, s)
  | .tokenUrlsafe nbytes, .bytes random, s =>
    if random.length = nbytes then some (urlsafeText random, s) else none
  | .uuid4, .uuid random, s => some (random, s)
  | .signPayload issuance payload, _, s =>
    some (sign payload, { s with signed := (issuance, payload) :: s.signed })
  | _, _, _ => none

namespace Handler

/-- Perform an operation. -/
def op (o : Op) : Handler (Res o) := Program.op o

/-- Raise a Python exception. -/
def raise {α : Type} (error : PyError) : Handler α := Program.throw error

/-- Answer with an HTTP error. -/
def httpError {α : Type} (statusCode : Nat) (detail : String) : Handler α :=
  raise (.httpException statusCode detail)

/-- `limiter.limit`. What the limiter decides depends on the address and on its earlier calls, so whether
the call is admitted is an argument. -/
def limit (admitted : Bool) : Handler Unit :=
  if admitted then return () else raise .rateLimitExceeded

/-- What follows runs where the call is admitted. -/
theorem limit_bind {α : Type} (admitted : Bool) (f : Unit → Handler α) :
    limit admitted >>= f = if admitted then f () else raise .rateLimitExceeded := by
  cases admitted <;> rfl

/-- Run a statement that reads. -/
def query : Handler Snapshot := op .query

/-- The rows that a `SELECT ... WHERE` returns. -/
def select (t : Table) (condition : t.Record → Bool) : Handler (List t.Record) := do
  let snapshot ← query
  return (snapshot.rows t).filter condition

/-- `scalar_one_or_none`. -/
def scalarOneOrNone {α : Type} : List α → Handler (Option α)
  | [] => pure none
  | [row] => pure (some row)
  | _ => raise .multipleResultsFound

/-- Update one row if it satisfies a condition. -/
def update (k : Key) (assign : Row k → Option (Row k)) : Handler (Option (Row k)) :=
  op (.update k assign)

/-- Run a statement that inserts. -/
def tryInsert (t : Table) (make : (id : Nat) → Datetime → Row ⟨t, id⟩) :
    Handler (Except PyError t.Record) :=
  op (.insert t make)

/-- Add a row and flush it. -/
def insert (t : Table) (make : (id : Nat) → Datetime → Row ⟨t, id⟩) : Handler t.Record := do
  let result ← tryInsert t make
  Program.liftExcept result

/-- `session.commit`. -/
def commit : Handler Unit := op .commit

/-- `session.close`. -/
def close : Handler Unit := op .close

/-- `secrets.token_urlsafe`. -/
def tokenUrlsafe (nbytes : Nat) : Handler String := op (.tokenUrlsafe nbytes)

/-- `uuid.uuid4`. -/
def uuid4 : Handler Uuid := op .uuid4

/-- `sign_payload`. -/
def signPayload (issuance : Issuance) (payload : List UInt8) : Handler (List UInt8) :=
  op (.signPayload issuance payload)

/-- `datetime.now(timezone.utc)`. -/
def now : Handler Datetime := op .now

/-- `now + timedelta(seconds=...)`. -/
def addSeconds (dt : Datetime) (seconds : Int) : Handler Datetime :=
  match dt.addSeconds seconds with
  | some later => pure later
  | none => raise .overflowError

end Handler

end ElevateGate.Backend
