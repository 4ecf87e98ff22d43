import TableTree.Failure
import TableTree.Table
import TableTree.Time.Duration
/-!
# Programs of requests

Whatever a store does is a program: it sends single requests to the table service, waits, looks at
the clock, gives notice of what happens, and goes on with the answers. A program says nothing about
who answers, so the same program runs on the simulated service, on any other, and beside other
programs that send their requests in between.

Results:

* `Request`, `Request.Reply`: the requests and what is answered to each.
* `Program`: programs; they form a lawful monad.
-/

namespace TableTree

/-- A request to the table service. -/
inductive Request
  | describeTable (table : String)
  | createTable (table : String) (keySchema : KeySchema) (capacity : Capacity)
  | deleteTable (table : String)
  | updateTable (table : String) (capacity : Capacity)
  /-- reads one item, with everything written before -/
  | getItem (table : String) (key : Key)
  /-- stores one item, replacing the one of its key -/
  | putItem (table : String) (item : Item)
  /-- removes one item, if it is there -/
  | deleteItem (table : String) (key : Key)
  /-- reads a partition in the order of its keys -/
  | query (table parent : String) (filter : Option Filter)
  /-- reads all items in the order of their keys -/
  | scan (table : String) (filter : Option Filter)
  /-- applies writes in order -/
  | batchWrite (table : String) (writes : List Write)
deriving DecidableEq

/-- What the service answers to a request that it grants. A batch is answered by the writes that
were left out. -/
@[reducible] def Request.Reply : Request → Type
  | .describeTable _ => TableDescription
  | .createTable .. => TableDescription
  | .deleteTable _ => Unit
  | .updateTable .. => TableDescription
  | .getItem .. => Option Item
  | .putItem .. => Unit
  | .deleteItem .. => Unit
  | .query .. => List Item
  | .scan .. => List Item
  | .batchWrite .. => List Write

/-- The answer to a request. -/
abbrev Request.Answer (r : Request) : Type := Except ServiceError r.Reply

/-- A request that is about to be tried again. -/
structure RetryEvent where
  operation : String
  target : String
  error : ServiceError
  /-- the number of failures so far -/
  attempts : UInt32
  idempotent : Bool
deriving DecidableEq

/-- What a program gives notice of. -/
inductive Notice
  /-- told to the listener before each retry -/
  | retrying (event : RetryEvent)
  /-- a warning that a table has too little capacity -/
  | limitsReached (operation table : String) (error : ServiceError)
  /-- the first of several tries has failed -/
  | firstFailure (operation target : String) (error : ServiceError)
  /-- a warning that a wait ended early -/
  | waitInterrupted (operation target : String)
deriving DecidableEq

/-- The weight of a notice that is logged. -/
inductive LogLevel
  | warn
  | info
deriving DecidableEq, Repr

/-- The line that a notice leaves in the log; what the listener is told leaves none. -/
def Notice.log? : Notice → Option (LogLevel × String)
  | .retrying _ => none
  | .limitsReached operation table error =>
    some (.warn, s!"Table IO limits reached in {operation} on table {table}; " ++
      s!"consider increasing capacity: {error.message}")
  | .firstFailure operation target error =>
    some (.info, s!"Retrying {operation} on {target}: {error.message}")
  | .waitInterrupted operation target =>
    some (.warn, s!"Interrupted while waiting in {operation} on {target}")

/-- How a wait ended. -/
inductive WaitEnd
  /-- its time was over -/
  | elapsed
  /-- the store was closed -/
  | interrupted
deriving DecidableEq, Repr

/-- A program that ends with a result of type `α`. -/
inductive Program (α : Type) : Type where
  /-- ends -/
  | done (result : α)
  /-- sends a request -/
  | send (request : Request) (next : request.Answer → Program α)
  /-- waits -/
  | wait (duration : Duration) (next : WaitEnd → Program α)
  /-- asks for the time in milliseconds since 1970 -/
  | clock (next : Int64 → Program α)
  /-- gives notice -/
  | tell (notice : Notice) (next : Program α)

namespace Program

variable {α β γ : Type}

/-- One program after another. -/
def bind : Program α → (α → Program β) → Program β
  | .done a, f => f a
  | .send r next, f => .send r fun answer => (next answer).bind f
  | .wait d next, f => .wait d fun ending => (next ending).bind f
  | .clock next, f => .clock fun now => (next now).bind f
  | .tell n next, f => .tell n (next.bind f)

instance : Monad Program where
  pure := .done
  bind := bind

@[simp] theorem done_bind (a : α) (f : α → Program β) : (Program.done a).bind f = f a := rfl

@[simp] theorem bind_done (p : Program α) : p.bind .done = p := by
  induction p with
  | done a => rfl
  | send r next ih => simp only [bind, ih]
  | wait d next ih => simp only [bind, ih]
  | clock next ih => simp only [bind, ih]
  | tell n next ih => simp only [bind, ih]

theorem bind_assoc (p : Program α) (f : α → Program β) (g : β → Program γ) :
    (p.bind f).bind g = p.bind fun a => (f a).bind g := by
  induction p with
  | done a => rfl
  | send r next ih => simp only [bind, ih]
  | wait d next ih => simp only [bind, ih]
  | clock next ih => simp only [bind, ih]
  | tell n next ih => simp only [bind, ih]

instance : LawfulMonad Program :=
  LawfulMonad.mk' Program (fun p => bind_done p) (fun a f => done_bind a f)
    (fun p f g => bind_assoc p f g)

/-- Sends one request. -/
def ask (r : Request) : Program r.Answer := .send r .done

/-- Waits once. -/
def sleep (d : Duration) : Program WaitEnd := .wait d .done

/-- Looks at the clock once. -/
def now : Program Int64 := .clock .done

/-- Gives notice once. -/
def notify (n : Notice) : Program Unit := .tell n (.done ())

end Program

end TableTree
