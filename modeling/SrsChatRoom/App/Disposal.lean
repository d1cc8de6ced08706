import SrsChatRoom.App.ResourceManager

/-!
# The disposal callbacks of the resource manager (`srs_app_conn.cpp`)

A handler subscribes to the disposal of resources. `remove` makes a resource a zombie and calls
`on_before_dispose` of every handler, `clear` takes all zombies, calls `on_disposing` of every
handler for each of them, and then frees them.

A callback may yield, and it may itself call the manager, so a loop over handlers is not one step
here: it stops at every callback, and goes on when that callback returns. Between the two, any
coroutine does what it likes. What a stopped loop keeps on its stack is its copy of the handlers
that are still to be called. `clear` is only called by the manager's own coroutine, number 0.

The verbose traces are left out, and so is the condition variable: when `clear` runs is the choice
of the run. A resource is freed once the run says so, as its destructor may yield too.
-/

namespace SrsChatRoom.App.Disposal

open ResourceManager

abbrev Handler := ℕ

abbrev Coroutine := ℕ

/-- A callback. -/
inductive Notice
  | onBeforeDispose (h : Handler) (c : Resource)
  | onDisposing (h : Handler) (c : Resource)
deriving DecidableEq

def Notice.handler : Notice → Handler
  | .onBeforeDispose h _ => h
  | .onDisposing h _ => h

def Notice.resource : Notice → Resource
  | .onBeforeDispose _ c => c
  | .onDisposing _ c => c

/-- A `do_remove(c)` that waits for a callback to return. -/
structure Removal where
  coroutine : Coroutine
  c : Resource
  handlers : List Handler
deriving DecidableEq

/-- A `do_clear()`. The copy of the zombies is in three parts while it calls handlers: those that
are disposed, `c`, and those that come after. -/
inductive Clearing
  | disposing (disposed : List Resource) (c : Resource) (handlers : List Handler)
      (left : List Resource)
  | freeing (left : List Resource)

/-- The manager with the loops that are stopped at a callback, the latest of a coroutine first.
The last five fields are no state of the program, they tell what happened so far. -/
structure World where
  manager : SrsResourceManager
  handlers : List Handler
  unsubs : List Handler
  removing : Bool
  removals : List Removal
  clearing : Option Clearing
  /-- The resources that `remove` made a zombie. -/
  removed : List Resource
  freed : List Resource
  notices : List Notice
  /-- The callbacks of handlers that were not subscribed. -/
  stale : List Notice
  /-- The handlers that were subscribed when a resource was removed, and were so since. -/
  steady : Resource → List Handler

namespace World

def new : World := ⟨.new, [], [], false, [], none, [], [], [], [], fun _ => []⟩

/-- `p_disposing_`: the zombies of a `do_clear` that has not disposed all of them. -/
def pDisposing (w : World) : List Resource :=
  match w.clearing with
  | some (.disposing disposed c _ left) => disposed ++ c :: left
  | _ => []

/-- The zombies that are to be freed without a further look at them. -/
def freeing (w : World) : List Resource :=
  match w.clearing with
  | some (.freeing left) => left
  | _ => []

/-- A loop over handlers ignores the one that is unsubscribing. -/
def pending (w : World) (handlers : List Handler) : List Handler :=
  handlers.dropWhile (· ∈ w.unsubs)

def call (w : World) (n : Notice) : World :=
  { w with
    notices := w.notices ++ [n]
    stale := if n.handler ∈ w.handlers then w.stale else w.stale ++ [n] }

/-! ## Subscriptions -/

/-- `subscribe(h)` -/
def subscribe (w : World) (h : Handler) : World :=
  { w with
    handlers := if h ∈ w.handlers then w.handlers else w.handlers ++ [h]
    unsubs := w.unsubs.erase h }

/-- `unsubscribe(h)` -/
def unsubscribe (w : World) (h : Handler) : World :=
  { w with
    handlers := w.handlers.erase h
    unsubs := if h ∈ w.unsubs then w.unsubs else w.unsubs ++ [h]
    steady := fun c => (w.steady c).filter (· ≠ h) }

/-! ## Removing -/

/-- The loop of `do_remove(c)` over the handlers, up to the next callback or to the end of
`remove(c)`. -/
def notify (w : World) (k : Coroutine) (c : Resource) (handlers : List Handler) : World :=
  match w.pending handlers with
  | [] => { w with removing := false }
  | h :: rest =>
    let w := w.call (.onBeforeDispose h c)
    { w with removals := ⟨k, c, rest⟩ :: w.removals }

/-- `check_remove(c)`, both answers in one. -/
def ignored (w : World) (c : Resource) : Bool := c ∈ w.manager.zombies ∨ c ∈ w.pDisposing

/-- A resource becomes a zombie. -/
def bury (w : World) (c : Resource) : World :=
  { w with
    manager := w.manager.remove c
    removed := c :: w.removed
    steady := Function.update w.steady c w.handlers }

/-- `remove(c)` -/
def remove (w : World) (k : Coroutine) (c : Resource) : World :=
  let w := { w with removing := true }
  if w.ignored c then { w with removing := false }
  else (w.bury c).notify k c w.handlers

/-! ## Clearing -/

/-- The loop of `do_clear` over the zombies, up to the next callback or to the end of it, where
`p_disposing_` is `NULL` again. -/
def disposeFrom (w : World) (disposed : List Resource) : List Resource → World
  | [] => { w with clearing := some (.freeing disposed) }
  | c :: left =>
    let w := { w with manager := w.manager.dispose c }
    match w.pending w.handlers with
    | [] => w.disposeFrom (disposed ++ [c]) left
    | h :: rest =>
      { w.call (.onDisposing h c) with clearing := some (.disposing disposed c rest left) }

/-- The loop of `dispose(c)` over the handlers, and what comes after it. -/
def resume (w : World) (disposed : List Resource) (c : Resource) (handlers : List Handler)
    (left : List Resource) : World :=
  match w.pending handlers with
  | [] => w.disposeFrom (disposed ++ [c]) left
  | h :: rest =>
    { w.call (.onDisposing h c) with clearing := some (.disposing disposed c rest left) }

/-- `clear()`, up to the first callback. -/
def clear (w : World) : Option World :=
  if w.clearing.isSome ∨ w.manager.zombies = [] then none
  else
    let zombies := w.manager.zombies
    let w := if w.removing then w else { w with unsubs := [] }
    let w := { w with manager := { w.manager with zombies := [] } }
    some (w.disposeFrom [] zombies)

/-- The manager's own coroutine goes on: the callback returned, or a resource is freed. -/
def proceed (w : World) : Option World :=
  match w.clearing with
  | none => none
  | some (.disposing disposed c handlers left) => some (w.resume disposed c handlers left)
  | some (.freeing []) => some { w with clearing := none }
  | some (.freeing (c :: left)) =>
    some { w with freed := c :: w.freed, clearing := some (.freeing left) }

/-- The callback that coroutine `k` is in returns. -/
def ret (w : World) (k : Coroutine) : Option World :=
  match w.removals.find? (·.coroutine = k) with
  | some r =>
    some ({ w with removals := w.removals.eraseP (·.coroutine = k) }.notify k r.c r.handlers)
  | none => if k = 0 then w.proceed else none

end World

/-! ## Runs -/

inductive Action
  | subscribe (h : Handler)
  | unsubscribe (h : Handler)
  | remove (k : Coroutine) (c : Resource)
  | clear
  | ret (k : Coroutine)

/-- One step of a coroutine, from one point where it may yield to the next. Nobody has a resource
any more that is freed. -/
def step (w : World) : Action → Option World
  | .subscribe h => some (w.subscribe h)
  | .unsubscribe h => some (w.unsubscribe h)
  | .remove k c => if c ∈ w.freed then none else some (w.remove k c)
  | .clear => w.clear
  | .ret k => w.ret k

end SrsChatRoom.App.Disposal
